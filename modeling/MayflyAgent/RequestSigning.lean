import MayflyAgent.Contracts
import MayflyAgent.Enrollment
import MayflyAgent.PollingRuns

/-!
What a request signature covers. The signed text is a list of fields separated by line breaks,
with neither lengths nor escapes, so it says which request it is for as long as no field contains
a line break. The requests of the heartbeat client and of the CA-sync service are all signed so.
-/
namespace MayflyAgent.RequestSigning

open RustText Codes Programs Contracts Checks Errors Bundles BundleValidation StateFiles CaSync
open SyncProgress Acknowledgements Heartbeats PollingRuns

theorem isDigit_decimalInt {n : Int} {c : Char} (h : c ∈ decimalInt n) :
    c = '-' ∨ c.isDigit = true := by
  unfold decimalInt at h
  split at h
  · rcases List.mem_cons.mp h with rfl | hdigit
    · exact Or.inl rfl
    · exact Or.inr (isDigit_decimal hdigit)
  · exact Or.inr (isDigit_decimal h)

theorem minus_not_mem_decimal (n : Nat) : '-' ∉ decimal n :=
  fun h => absurd (isDigit_decimal h) (by decide)

theorem decimalInt_injective : Function.Injective decimalInt := by
  intro m n h
  have hsign : ∀ {k : Nat} {rest : Text}, decimal k ≠ '-' :: rest := fun hk =>
    minus_not_mem_decimal _ (hk ▸ List.mem_cons_self ..)
  unfold decimalInt at h
  split at h <;> split at h
  · have habs := decimal_injective (List.cons.inj h).2
    omega
  · exact absurd h.symm hsign
  · exact absurd h hsign
  · have habs := decimal_injective h
    omega

theorem newline_not_mem_decimalInt (n : Int) : '\n' ∉ decimalInt n := by
  intro h
  rcases isDigit_decimalInt h with hminus | hdigit
  · exact absurd hminus (by decide)
  · exact absurd hdigit (by decide)

theorem newline_not_mem_hexEncode (b : Bytes) : '\n' ∉ hexEncode b :=
  fun h => absurd (isAsciiGraphic_hexEncode h) (by decide)

def canonicalFields (machineId : Text) (timestamp : Int) (nonce method path bodyHashHex : Text) :
    List Text :=
  [signingDomain, machineId, decimalInt timestamp, nonce, method, path, bodyHashHex]

theorem canonicalString_eq (machineId : Text) (timestamp : Int)
    (nonce method path bodyHashHex : Text) :
    canonicalString machineId timestamp nonce method path bodyHashHex =
      ['\n'].intercalate (canonicalFields machineId timestamp nonce method path bodyHashHex) := by
  simp [canonicalString, canonicalFields]

/-- Only one of the two tuples has to be free of line breaks. -/
theorem canonicalString_unambiguous {machineId machineId' nonce nonce' method method' : Text}
    {path path' bodyHash bodyHash' : Text} {timestamp timestamp' : Int}
    (hmachine : '\n' ∉ machineId) (hnonce : '\n' ∉ nonce) (hmethod : '\n' ∉ method)
    (hpath : '\n' ∉ path) (hhash : '\n' ∉ bodyHash)
    (h : canonicalString machineId timestamp nonce method path bodyHash =
      canonicalString machineId' timestamp' nonce' method' path' bodyHash') :
    machineId = machineId' ∧ timestamp = timestamp' ∧ nonce = nonce' ∧ method = method' ∧
      path = path' ∧ bodyHash = bodyHash' := by
  rw [canonicalString_eq, canonicalString_eq] at h
  have hfree : ∀ field ∈ canonicalFields machineId timestamp nonce method path bodyHash,
      '\n' ∉ field := by
    simp only [canonicalFields, List.forall_mem_cons]
    exact ⟨by decide +kernel, hmachine, newline_not_mem_decimalInt timestamp, hnonce, hmethod,
      hpath, hhash, nofun⟩
  have hlength : (canonicalFields machineId timestamp nonce method path bodyHash).length =
      (canonicalFields machineId' timestamp' nonce' method' path' bodyHash').length := rfl
  have hfields := intercalate_unambiguous '\n' (List.cons_ne_nil _ _) hlength hfree h
  simp only [canonicalFields, List.cons.injEq, true_and, and_true] at hfields
  obtain ⟨hm, ht, hrest⟩ := hfields
  exact ⟨hm, decimalInt_injective ht, hrest⟩

/-- What a signature is meant to cover. -/
structure SignableRequest where
  machineId : Text
  timestamp : Int
  nonce : Text
  method : Text
  path : Text
  body : Bytes

namespace SignableRequest

variable (client : Client) (r : SignableRequest)

/-- The text that is signed for the request. -/
def canonical : Text :=
  canonicalString r.machineId r.timestamp r.nonce r.method r.path (bodySha256Hex client r.body)

def message : Bytes := encodeUtf8 (r.canonical client)

def signedHeaders (signature : Vector UInt8 64) : SignedHeaders where
  machineId := r.machineId
  timestamp := r.timestamp
  nonce := r.nonce
  signature := client.base64Encode signature.toList

/-- The headers that the keypair makes for the request. -/
def Signs (signed : SignedHeaders) : Prop :=
  ∃ signature, client.sign (r.message client) = some signature ∧
    signed = r.signedHeaders client signature

/-- The request has the message of no other one, unless two bodies have one digest. -/
def Unmistakable : Prop :=
  ∀ other : SignableRequest,
    (client.sha256 r.body = client.sha256 other.body → r.body = other.body) →
    r.message client = other.message client → r = other

end SignableRequest

theorem signRequest_eq_ok {client : Client} {machineId nonce method path : Text} {timestamp : Int}
    {body : Bytes} {signed : SignedHeaders}
    (h : signRequest client machineId timestamp nonce method path body = .ok signed) :
    SignableRequest.Signs client ⟨machineId, timestamp, nonce, method, path, body⟩ signed := by
  unfold signRequest at h
  simp only at h
  split at h
  · cases h
  · rename_i signature hsignature
    exact ⟨signature, hsignature, (Except.ok.inj h).symm⟩

theorem unmistakable_of_free {client : Client} {r : SignableRequest} (hmachine : '\n' ∉ r.machineId)
    (hnonce : '\n' ∉ r.nonce) (hmethod : '\n' ∉ r.method) (hpath : '\n' ∉ r.path) :
    r.Unmistakable client := by
  intro other hcollision h
  obtain ⟨hm, ht, hn, hv, hp, hb⟩ := canonicalString_unambiguous hmachine hnonce hmethod hpath
    (newline_not_mem_hexEncode _) (encodeUtf8_injective h)
  have hdigest := Vector.toList_inj.mp (hexEncode_injective hb)
  cases r
  cases other
  simp only [SignableRequest.mk.injEq]
  exact ⟨hm, ht, hn, hv, hp, hcollision hdigest⟩

/-- The headers of a fresh request, under a nonce drawn for it. -/
def FreshlySigned (client : Client) (machineId method path : Text) (body : Bytes)
    (signed : SignedHeaders) : Prop :=
  ∃ timestamp nonce,
    SignableRequest.Signs client ⟨machineId, timestamp, nonce, method, path, body⟩ signed ∧
      SignableRequest.Unmistakable client ⟨machineId, timestamp, nonce, method, path, body⟩

/-- A request that goes out under a signature of exactly this method, path and body. -/
structure SentAs (client : Client) (serverUrl machineId method path : Text) (body : Bytes)
    (http : HttpRequest) : Prop where
  url : http.url = joinUrl serverUrl path
  contents : http.body = body
  signed : ∃ signed, FreshlySigned client machineId method path body signed ∧
    ∀ header ∈ signingHeaders signed, header ∈ http.headers

/-- Headers that cover exactly this method, path and body, under some nonce in hexadecimal. -/
def Covers (client : Client) (machineId method path : Text) (body : Bytes)
    (signed : SignedHeaders) : Prop :=
  ∃ timestamp nonce,
    SignableRequest.Signs client ⟨machineId, timestamp, hexEncode nonce, method, path, body⟩ signed

/-- A request that goes out with such headers, to this path on the server. -/
structure SentSigned (client : Client) (serverUrl machineId method path : Text) (body : Bytes)
    (http : HttpRequest) : Prop where
  url : http.url = joinUrl serverUrl path
  contents : http.body = body
  signed : ∃ signed, Covers client machineId method path body signed ∧
    ∀ header ∈ signingHeaders signed, header ∈ http.headers

theorem SentSigned.sentAs {client : Client} {serverUrl machineId method path : Text} {body : Bytes}
    {http : HttpRequest} (h : SentSigned client serverUrl machineId method path body http)
    (hmachine : '\n' ∉ machineId) (hmethod : '\n' ∉ method) (hpath : '\n' ∉ path) :
    SentAs client serverUrl machineId method path body http := by
  obtain ⟨signed, ⟨timestamp, nonce, hsigns⟩, hheaders⟩ := h.signed
  exact ⟨h.url, h.contents, signed, ⟨timestamp, _, hsigns,
    unmistakable_of_free hmachine (newline_not_mem_hexEncode nonce) hmethod hpath⟩, hheaders⟩

section Requests

variable {W : Type} {client : Client} {machineId : Text}

/-- What a program sends over HTTP satisfies `C`. -/
def Sends (C : HttpRequest → Prop) (S : Signature) (http : S.Op → Option HttpRequest)
    (_ : List (Event S W)) (e : Event S W) : Prop := ∀ request ∈ http e.op, C request

def syncHttp : SyncOp → Option HttpRequest
  | .get request => some request
  | .post request => some request
  | .read _ => none
  | .secureWrite _ _ _ => none
  | .now => none
  | .randomBytes => none
  | .apply _ => none

def daemonHttp : daemonSignature.Op → Option HttpRequest
  | .inl op => syncHttp op
  | .inr (.heartbeatPost request) => some request
  | .inr .loadStatus => none
  | .inr (.saveStatus _) => none

/-- Nothing is known of the past or the world. -/
def Always {S : Signature} : Condition S W := fun _ _ => True

variable {C : HttpRequest → Prop}

theorem meets_generateNonce (env : Environment syncSignature W) :
    Meets env (Sends C syncSignature syncHttp) Always generateNonce.run
      (Returns (fun _ => Always) fun nonce _ _ => ∃ bytes, nonce = hexEncode bytes) :=
  meets_call (M := fun _ => Always) (fun _ _ _ _ _ _ => ⟨nofun, trivial⟩)
    fun bytes => meets_done fun _ _ _ => ⟨bytes.toList, rfl⟩

/-- Signing sends nothing, and covers what it was asked to sign. -/
theorem meets_sign (s : CaSyncService) (env : Environment syncSignature W) {method path : Text}
    (body : Bytes) :
    Meets env (Sends C syncSignature syncHttp) Always (s.sign method path body).run
      (Returns (fun _ => Always)
        fun signed _ _ => Covers s.client s.machineId method path body signed) := by
  unfold CaSyncService.sign
  refine Meets.andThen (Q := fun _ => Always) (meets_perform fun _ _ _ _ _ _ => ⟨nofun, trivial⟩)
    fun now => ?_
  refine (meets_generateNonce env).andThen fun nonce => ?_
  refine meets_of_fact (fun _ _ h => h) fun hnonce => ?_
  obtain ⟨bytes, rfl⟩ := hnonce
  refine (meets_ofExcept fun _ _ _ _ _ => trivial).post fun r _ _ hr => ?_
  cases r with
  | error e => trivial
  | ok signed => exact ⟨_, bytes, signRequest_eq_ok hr.2⟩

theorem meets_send {S : Signature} {env : Environment S W} {http : S.Op → Option HttpRequest}
    {op : S.Op} {β : Type} {f : S.Answer op → Except Error β}
    {P : Condition S W} (h : ∀ past w, P past w → ∀ request ∈ http op, C request) :
    Meets env (Sends C S http) P
      (Action.perform op >>= fun answer => Action.ofExcept (f answer)).run
      (Returns (fun _ => Always) fun _ => Always) := by
  refine meets_ask fun past w answer _ hP _ => ⟨h past w hP, ?_⟩
  cases f answer with
  | error e => trivial
  | ok b => trivial

theorem meets_ofExcept_always {S : Signature} {env : Environment S W}
    {E : List (Event S W) → Event S W → Prop} {P : Condition S W} {β : Type} {r : Except Error β} :
    Meets env E P (Action.ofExcept r : Action S Error β).run
      (Returns (fun _ => Always) fun _ => Always) := by
  refine (meets_ofExcept fun _ _ _ _ _ => trivial).post fun answer _ _ _ => ?_
  cases answer with
  | error e => trivial
  | ok b => trivial

/-- The bundle is fetched by a request of this method, path and body. -/
theorem meets_fetchBundle (s : CaSyncService) (env : Environment syncSignature W)
    (fingerprint : Option Text) :
    Meets env (Sends (SentSigned s.client s.serverUrl s.machineId (text "GET") caBundlePath [])
      syncSignature syncHttp) Always (s.fetchBundle fingerprint).run
      (Returns (fun _ => Always) fun _ => Always) := by
  refine (meets_sign s env []).andThen fun signed => ?_
  refine meets_send fun _ _ hsigned request hrequest => ?_
  obtain rfl := Option.some.inj hrequest
  exact ⟨rfl, rfl, signed, hsigned, fun header hheader => List.mem_append_left _ hheader⟩

theorem meets_tryAcknowledge (s : CaSyncService) (env : Environment syncSignature W)
    (report : AckReport) :
    Meets env (Sends (fun http => ∃ body ∈ s.client.ackToJson report,
        SentSigned s.client s.serverUrl s.machineId (text "POST") caBundleAckPath body http)
      syncSignature syncHttp) Always (s.tryAcknowledge report).run
      (Returns (fun _ => Always) fun _ => Always) := by
  unfold CaSyncService.tryAcknowledge
  refine meets_ofExcept_bind (fun _ _ _ _ _ => trivial) fun body hbody => ?_
  refine (meets_sign s env body).andThen fun signed => ?_
  refine Meets.andThen (Q := fun _ => Always) ?_ fun response => ?_
  · refine meets_send fun _ _ hsigned request hrequest => ⟨body, okOr_eq_ok.mp hbody, ?_⟩
    obtain rfl := Option.some.inj hrequest
    exact ⟨rfl, rfl, signed, hsigned, fun header hheader => List.mem_append_left _ hheader⟩
  · exact meets_ofExcept_always

theorem meets_signHeartbeat (c : HeartbeatClient) (env : Environment daemonSignature W)
    (request : HeartbeatRequest) :
    Meets env (Sends C daemonSignature daemonHttp) Always (c.signHeartbeat request).run
      (Returns (fun _ => Always) fun http _ _ => SentSigned c.client c.serverUrl c.machineId
        (text "POST") heartbeatPath (heartbeatBody request) http) := by
  unfold HeartbeatClient.signHeartbeat
  refine Meets.andThen (Q := fun _ => Always) ?_ fun now => ?_
  · exact meets_call (M := fun _ => Always) (fun _ _ _ _ _ _ => ⟨nofun, trivial⟩)
      fun _ => meets_done fun _ _ _ => trivial
  refine Meets.andThen (Q := fun nonce _ _ => ∃ bytes, nonce = hexEncode bytes) ?_ fun nonce => ?_
  · exact meets_call (M := fun _ => Always) (fun _ _ _ _ _ _ => ⟨nofun, trivial⟩)
      fun bytes => meets_done fun _ _ _ => ⟨Vector.toList (α := UInt8) bytes, rfl⟩
  refine meets_of_fact (fun _ _ h => h) fun hnonce => ?_
  obtain ⟨bytes, rfl⟩ := hnonce
  refine meets_ofExcept_bind (fun _ _ _ _ _ => trivial) fun signed hsigned => ?_
  exact meets_pure fun _ _ _ => ⟨rfl, rfl, signed, ⟨_, bytes, signRequest_eq_ok hsigned⟩,
    fun _ h => List.mem_cons_of_mem _ h⟩

theorem meets_sendHeartbeat (c : HeartbeatClient) (env : Environment daemonSignature W)
    (request : HeartbeatRequest) :
    Meets env (Sends (SentSigned c.client c.serverUrl c.machineId (text "POST") heartbeatPath
      (heartbeatBody request)) daemonSignature daemonHttp) Always (c.sendHeartbeat request).run
      (Returns (fun _ => Always) fun _ => Always) := by
  refine (meets_signHeartbeat c env request).andThen fun http => ?_
  refine Meets.andThen (Q := fun _ => Always) ?_ fun response => ?_
  · refine meets_send fun _ _ hsent posted hposted => ?_
    obtain rfl := Option.some.inj hposted
    exact hsent
  · exact meets_ofExcept_always

theorem sends_of_meets {S : Signature} {env : Environment S W} {http : S.Op → Option HttpRequest}
    {β : Type} {p : Program S β} {Q : β → Condition S W} (h : Meets env (Sends C S http) Always p Q)
    {w w' : W} {trace : List (Event S W)} {result : Option β}
    (hexec : Exec env p w trace result w') :
    ∀ e ∈ trace, ∀ request ∈ http e.op, C request :=
  (h [] w trace result w' trivial hexec).1.forall_mem fun _ _ he => he

end Requests

theorem isMachineIdChar_newline : Enrollment.isMachineIdChar '\n' = false := by decide

theorem validateResponse_machineId {ext : Crypto} {response : Enrollment.EnrollmentResponse}
    (h : Enrollment.validateResponse ext response = .ok ()) : '\n' ∉ response.machineId := by
  intro hmem
  simp only [Enrollment.validateResponse, check_bind_eq_ok, rejectIf_eq_ok, not_or,
    Bool.not_eq_false] at h
  have hchar := List.all_eq_true.mp h.2.1.2 '\n' hmem
  rw [isMachineIdChar_newline] at hchar
  cases hchar

/-- Signed texts are unambiguous for fields without line breaks, which an accepted enrollment
gives to the machine id. So every heartbeat, fetch and acknowledgement goes out under a message
that no other request has, as far as no two bodies have one digest. -/
theorem request_signatures_unambiguous :
    (∀ (machineId machineId' nonce nonce' method method' path path' hash hash' : Text)
      (timestamp timestamp' : Int), '\n' ∉ machineId → '\n' ∉ nonce → '\n' ∉ method →
      '\n' ∉ path → '\n' ∉ hash →
      (canonicalString machineId timestamp nonce method path hash =
          canonicalString machineId' timestamp' nonce' method' path' hash' ↔
        machineId = machineId' ∧ timestamp = timestamp' ∧ nonce = nonce' ∧ method = method' ∧
          path = path' ∧ hash = hash')) ∧
    (∀ (ext : Crypto) (response : Enrollment.EnrollmentResponse),
      Enrollment.validateResponse ext response = .ok () → '\n' ∉ response.machineId) ∧
    (∀ (W : Type) (env : Environment daemonSignature W) (c : HeartbeatClient)
      (beat : HeartbeatRequest) (w w' : W) trace result, '\n' ∉ c.machineId →
      Exec env (c.sendHeartbeat beat).run w trace result w' → ∀ e ∈ trace,
        ∀ http ∈ daemonHttp e.op, SentAs c.client c.serverUrl c.machineId (text "POST")
          heartbeatPath (heartbeatBody beat) http) ∧
    (∀ (W : Type) (env : Environment syncSignature W) (s : CaSyncService)
      (fingerprint : Option Text) (w w' : W) trace result, '\n' ∉ s.machineId →
      Exec env (s.fetchBundle fingerprint).run w trace result w' → ∀ e ∈ trace,
        ∀ http ∈ syncHttp e.op, SentAs s.client s.serverUrl s.machineId (text "GET")
          caBundlePath [] http) ∧
    ∀ (W : Type) (env : Environment syncSignature W) (s : CaSyncService)
      (report : AckReport) (w w' : W) trace result, '\n' ∉ s.machineId →
      Exec env (s.tryAcknowledge report).run w trace result w' → ∀ e ∈ trace,
        ∀ http ∈ syncHttp e.op, ∃ body ∈ s.client.ackToJson report,
          SentAs s.client s.serverUrl s.machineId (text "POST") caBundleAckPath body http := by
  have hpost : '\n' ∉ text "POST" := by decide +kernel
  refine ⟨?_, fun _ _ => validateResponse_machineId, ?_, ?_, ?_⟩
  · intro machineId machineId' nonce nonce' method method' path path' hash hash' timestamp
      timestamp' hmachine hnonce hmethod hpath hhash
    refine ⟨canonicalString_unambiguous hmachine hnonce hmethod hpath hhash, ?_⟩
    rintro ⟨rfl, rfl, rfl, rfl, rfl, rfl⟩
    rfl
  · intro W env c beat w w' trace result hmachine hexec e he http hhttp
    have hsent := sends_of_meets (meets_sendHeartbeat c env beat) hexec e he http hhttp
    exact hsent.sentAs hmachine hpost (by decide +kernel)
  · intro W env s fingerprint w w' trace result hmachine hexec e he http hhttp
    have hsent := sends_of_meets (meets_fetchBundle s env fingerprint) hexec e he http hhttp
    exact hsent.sentAs hmachine (by decide +kernel) (by decide +kernel)
  · intro W env s report w w' trace result hmachine hexec e he http hhttp
    obtain ⟨body, hbody, hsent⟩ :=
      sends_of_meets (meets_tryAcknowledge s env report) hexec e he http hhttp
    exact ⟨body, hbody, hsent.sentAs hmachine hpost (by decide +kernel)⟩

/-- Played without regard to the world, a program that answers with a request sends one. -/
theorem played_sends {S : Signature} {W β : Type} (http : S.Op → Option HttpRequest)
    (policy : W → (op : S.Op) → Option (S.Answer op × W)) (p : Program S β) (w : W)
    (h : (play policy p w).1.any (fun e => (http e.op).isSome) = true) :
    Exec (fun _ _ _ _ => True) p w (play policy p w).1 (play policy p w).2.1
      (play policy p w).2.2 ∧ ∃ e ∈ (play policy p w).1, ∃ request, request ∈ http e.op := by
  refine ⟨exec_play (fun _ _ _ _ _ => trivial) p w, ?_⟩
  obtain ⟨e, he, hsome⟩ := List.any_eq_true.mp h
  exact ⟨e, he, Option.isSome_iff_exists.mp hsome⟩

/-- The sample machine's three requests, an enrollment that gave it its id, and two signed texts
of which one has a line break in its path. -/
theorem request_signatures_unambiguous_sample :
    canonicalString (text "machine-01") 7 (text "ab") (text "GET") caBundlePath (text "cd") ≠
      canonicalString (text "machine-01") 7 (text "ab") (text "GET")
        (caBundlePath ++ text "\ncd") [] ∧
    (∃ http, SentAs beatClient (text "https://mayfly.example") (text "machine-01") (text "POST")
      heartbeatPath (heartbeatBody (sampleBeat 0)) http) ∧
    (∃ http, SentAs sampleClient (text "https://mayfly.example") (text "machine-01") (text "GET")
      caBundlePath [] http) ∧
    ∃ http, SentAs sampleClient (text "https://mayfly.example") (text "machine-01") (text "POST")
      caBundleAckPath (ackJson (CaSyncService.appliedReport golden.bundle)) http := by
  obtain ⟨hcanonical, _, hbeat, hfetch, hack⟩ := request_signatures_unambiguous
  have hmachine : '\n' ∉ text "machine-01" := by decide +kernel
  refine ⟨?_, ?_, ?_, ?_⟩
  · intro h
    have hfields := (hcanonical _ _ _ _ _ _ _ _ _ _ _ _ hmachine (by decide +kernel)
      (by decide +kernel) (by decide +kernel) (by decide +kernel)).mp h
    exact absurd hfields.2.2.2.2.2 (by decide +kernel)
  · obtain ⟨hexec, e, he, http, hhttp⟩ := played_sends daemonHttp sampleAnswer
      (sampleDaemon.heartbeat.sendHeartbeat (sampleBeat 0)).run StateDir.empty (by decide +kernel)
    exact ⟨http, hbeat _ _ _ _ _ _ _ _ hmachine hexec e he http hhttp⟩
  · obtain ⟨hexec, e, he, http, hhttp⟩ := played_sends syncHttp goldenScript.answer
      ((sampleService none).fetchBundle none).run StateDir.empty (by decide +kernel)
    exact ⟨http, hfetch _ _ _ _ _ _ _ _ hmachine hexec e he http hhttp⟩
  · obtain ⟨hexec, e, he, http, hhttp⟩ := played_sends syncHttp goldenScript.answer
      ((sampleService none).tryAcknowledge (CaSyncService.appliedReport golden.bundle)).run
      StateDir.empty (by decide +kernel)
    obtain ⟨body, hbody, hsent⟩ := hack _ _ _ _ _ _ _ _ hmachine hexec e he http hhttp
    obtain rfl := Option.some.inj hbody
    exact ⟨http, hsent⟩

end MayflyAgent.RequestSigning
