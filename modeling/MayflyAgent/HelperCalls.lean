import MayflyAgent.BundleEncoding
import MayflyAgent.HelperExchanges

/-!
The operations of the helper client, after `ipc/client.rs`, for any other side of the connection.
All of them are one exchange: a request goes out, and what comes back is judged. An operation
succeeds exactly if the connection takes the whole request and the reply holds a response that is
judged well. And the bytes on the wire are those of no other request.
-/
namespace MayflyAgent.HelperCalls

open RustText Codes Programs Checks Errors Framing BundleEncoding CaSync Helper HelperStreams
open HelperExchanges (Takes call_takes call_refused firstBody firstBody_eq_some firstBody_part)

section Operations

variable (client : HelperClient)

/-- One exchange, whose response is judged. -/
def operation {α : Type} (request : Request) (judge : Response → Except Error α) :
    HelperAction α := do
  let response ← client.call request
  Action.ofExcept (judge response)

def checkOk (response : Response) : Except Error Outcome :=
  if response.ok then .ok response.outcome
  else if response.detail = some (text "unauthenticated") then .error .helperUnauthenticated
  else .error .helperOperationFailed

/-- `check_ok` where its outcome is dropped. -/
def checkDone (response : Response) : Except Error Unit := do
  let _ ← checkOk response
  pure ()

def checkVersion (response : Response) : Except Error Text := do
  let _ ← checkOk response
  okOr response.helperVersion .helperOperationFailed

def ping : HelperAction Text := operation client (Request.new client.token .ping) checkVersion

def ensureDirectories : HelperAction Unit :=
  operation client (Request.new client.token .ensureDirectories) checkDone

def installSshdDropin : HelperAction Outcome :=
  operation client (Request.new client.token .installSshdDropin) checkOk

def applyTrustedCaKeys (content : Text) : HelperAction Outcome :=
  operation client (Request.apply client.token content) checkOk

def verifyState : HelperAction Unit :=
  operation client (Request.new client.token .verifyState) checkDone

/-- The apply of the CA sync is the same exchange, judged in another way. -/
theorem applyBundle_eq (content : Text) : client.applyBundle content =
    operation client (Request.apply client.token content) HelperClient.bundleOutcome := rfl

end Operations

theorem checkOk_eq_ok {response : Response} {outcome : Outcome} :
    checkOk response = .ok outcome ↔ response.ok = true ∧ response.outcome = outcome := by
  unfold checkOk
  by_cases hok : response.ok = true
  · rw [if_pos hok]
    exact ⟨fun h => ⟨hok, Except.ok.inj h⟩, fun h => congrArg Except.ok h.2⟩
  · rw [if_neg hok]
    refine ⟨fun h => ?_, fun h => absurd h.1 hok⟩
    split_ifs at h

theorem checkDone_eq_ok {response : Response} :
    checkDone response = .ok () ↔ response.ok = true := by
  unfold checkDone
  simp only [bind_eq_ok, checkOk_eq_ok]
  exact ⟨fun ⟨_, h, _⟩ => h.1, fun h => ⟨_, ⟨h, rfl⟩, rfl⟩⟩

theorem checkVersion_eq_ok {response : Response} {version : Text} :
    checkVersion response = .ok version ↔
      response.ok = true ∧ response.helperVersion = some version := by
  unfold checkVersion
  simp only [bind_eq_ok, checkOk_eq_ok, okOr_eq_ok]
  exact ⟨fun ⟨_, h, hversion⟩ => ⟨h.1, hversion⟩, fun h => ⟨_, ⟨h.1, rfl⟩, h.2⟩⟩

theorem bundleOutcome_eq_applied {response : Response} :
    HelperClient.bundleOutcome response = .ok .applied ↔ response.ok = true := by
  unfold HelperClient.bundleOutcome
  by_cases hok : response.ok = true
  · rw [if_pos hok]
    exact ⟨fun _ => hok, fun _ => rfl⟩
  · rw [if_neg hok]
    refine ⟨fun h => ?_, fun h => absurd h hok⟩
    split_ifs at h
    cases h

theorem bundleOutcome_eq_rolledBack {response : Response} :
    HelperClient.bundleOutcome response = .ok .rolledBack ↔ response.ok = false ∧
      response.detail ≠ some (text "unauthenticated") ∧ response.outcome = .rolledBack := by
  unfold HelperClient.bundleOutcome
  by_cases hok : response.ok = true
  · rw [if_pos hok]
    refine ⟨fun h => ?_, fun h => absurd hok (by rw [h.1]; exact Bool.false_ne_true)⟩
    cases h
  rw [if_neg hok]
  by_cases hdetail : response.detail = some (text "unauthenticated")
  · rw [if_pos hdetail]
    refine ⟨fun h => ?_, fun h => absurd hdetail h.2.1⟩
    cases h
  rw [if_neg hdetail]
  by_cases houtcome : response.outcome = .rolledBack
  · rw [if_pos houtcome]
    exact ⟨fun _ => ⟨Bool.eq_false_iff.mpr hok, hdetail, houtcome⟩, fun _ => rfl⟩
  · rw [if_neg houtcome]
    refine ⟨fun h => ?_, fun h => absurd h.2.2 houtcome⟩
    cases h

theorem jsonString_closed {s t r u : Text} (h : jsonString s ++ r = jsonString t ++ u) :
    s = t ∧ r = u := by
  unfold jsonString at h
  simp only [List.cons_append, List.append_assoc] at h
  have hquote : ['"'].head? = some '"' := rfl
  exact jsonEscape_closed hquote (List.cons.inj h).2

theorem operation_name_injective {op op' : Operation} (h : op.name = op'.name) : op = op' := by
  have hall : ([Operation.ping, .ensureDirectories, .installSshdDropin, .applyTrustedCaKeys,
      .verifyState].all fun op => [Operation.ping, .ensureDirectories, .installSshdDropin,
        .applyTrustedCaKeys, .verifyState].all fun op' => op.name != op'.name || op == op') =
      true := by decide +kernel
  have hmem : ∀ op : Operation, op ∈ [Operation.ping, .ensureDirectories, .installSshdDropin,
      .applyTrustedCaKeys, .verifyState] := by
    intro op
    cases op <;> decide
  have hpair := List.all_eq_true.mp (List.all_eq_true.mp hall op (hmem op)) op' (hmem op')
  rw [h, bne_self_eq_false, Bool.false_or] at hpair
  exact eq_of_beq hpair

/-- The content of a request in its JSON, up to the closing brace. -/
def contentJson : Option Text → Text
  | some content => text ",\"content\":" ++ jsonString content
  | none => []

theorem requestJson_eq (request : Request) : requestJson request =
    text "\x7b\"protocol_version\":" ++ decimal request.protocolVersion.toNat ++
      text ",\"token\":" ++ jsonString request.token ++
      text ",\"op\":" ++ jsonString request.op.name ++ contentJson request.content ++ ['\x7d'] := by
  unfold requestJson
  cases request.content <;> rfl

/-- A content is told from its absence by the symbol behind the operation. -/
theorem contentJson_closed {content content' : Option Text}
    (h : contentJson content ++ ['\x7d'] = contentJson content' ++ ['\x7d']) :
    content = content' := by
  have hcomma : ∀ rest : Text, text ",\"content\":" ++ rest ≠ ['\x7d'] := by
    intro rest heq
    have hfirst : (text ",\"content\":").head? = some ',' := by decide +kernel
    have hhead := congrArg List.head? heq
    rw [List.head?_append, hfirst] at hhead
    have hsame : some ',' = some '\x7d' := hhead
    exact absurd hsame (by decide)
  cases content with
  | some content =>
    cases content' with
    | some content' =>
      simp only [contentJson, List.append_assoc] at h
      exact congrArg some (jsonString_closed (List.append_cancel_left h)).1
    | none =>
      simp only [contentJson, List.append_assoc] at h
      exact absurd h (hcomma _)
  | none =>
    cases content' with
    | some content' =>
      simp only [contentJson, List.append_assoc] at h
      exact absurd h.symm (hcomma _)
    | none => rfl

theorem requestJson_injective : Function.Injective requestJson := by
  intro request request' h
  rw [requestJson_eq, requestJson_eq] at h
  simp only [List.append_assoc] at h
  obtain ⟨hversion, h⟩ := decimal_closed (by decide +kernel) (List.append_cancel_left h)
  obtain ⟨htoken, h⟩ := jsonString_closed h
  obtain ⟨hop, h⟩ := jsonString_closed (List.append_cancel_left h)
  have hcontent := contentJson_closed h
  obtain ⟨version, token, op, content⟩ := request
  obtain ⟨version', token', op', content'⟩ := request'
  rw [Request.mk.injEq]
  exact ⟨UInt32.toNat_inj.mp hversion, htoken, operation_name_injective hop, hcontent⟩

/-- No two requests have one body. -/
def Distinguishes (requestToJson : Request → Option Bytes) : Prop :=
  ∀ request other body, requestToJson request = some body → requestToJson other = some body →
    other = request

theorem compactJson_distinguishes : Distinguishes compactJson := by
  intro request other body hbody hother
  have hsame : requestBody other = requestBody request :=
    Option.some.inj (hother.trans hbody.symm)
  exact requestJson_injective (encodeUtf8_injective hsame)

section Exchange

variable (peer : Peer) (client : HelperClient) (request : Request)

/-- The response that the bytes of the peer hold. -/
def answered : Option Response := (firstBody peer.reply).bind client.responseFromJson

/-- The result of an operation, and what its request leaves on the wire. -/
def exchanged {α : Type} (x : HelperAction α) : Option (Except Error α) × Wire :=
  outcome (socket peer) x.run ⟨[], peer.reply⟩

/-- The request has this body, and the connection takes all of it. -/
def Delivers (body : Bytes) : Prop := client.requestToJson request = some body ∧ Takes peer body

/-- An operation ends, and what it does goes by whether its request is taken. -/
theorem operation_runs {α : Type} (judge : Response → Except Error α) : ∃ result wire,
    exchanged peer (operation client request judge) = (some result, wire) ∧
      (∀ a, result = .ok a ↔ (∃ body, Delivers peer client request body) ∧
        ∃ response, answered peer client = some response ∧ judge response = .ok a) ∧
      ((∃ body, Delivers peer client request body ∧ wire.sent = frame 4 body) ∨
        ∀ n, firstBody (wire.sent.take n) = none) := by
  unfold exchanged operation
  by_cases h : ∃ body, Delivers peer client request body
  · obtain ⟨body, hbody, htakes⟩ := id h
    obtain ⟨received, incoming, hcall, hreply⟩ := call_takes client hbody htakes
    cases received with
    | ok response =>
      have hresponse := (hreply response).mp rfl
      refine ⟨_, _, outcome_action_ok _ hcall, fun a => ?_, Or.inl ⟨body, ⟨hbody, htakes⟩, rfl⟩⟩
      refine ⟨fun hjudge => ⟨h, response, hresponse, hjudge⟩, fun ⟨_, other, hother, hjudge⟩ => ?_⟩
      obtain rfl := Option.some.inj (hresponse.symm.trans hother)
      exact hjudge
    | error e =>
      refine ⟨_, _, outcome_action_error _ hcall, fun a => ?_,
        Or.inl ⟨body, ⟨hbody, htakes⟩, rfl⟩⟩
      refine ⟨fun herror => ?_, fun ⟨_, other, hother, _⟩ => ?_⟩
      · cases herror
      · cases (hreply other).mpr hother
  · have hrefused : ∀ body, client.requestToJson request = some body → ¬ Takes peer body :=
      fun body hbody htakes => h ⟨body, hbody, htakes⟩
    obtain ⟨e, wire, hcall, hunsent⟩ := call_refused client hrefused
    refine ⟨_, _, outcome_action_error _ hcall, fun a => ?_, Or.inr hunsent⟩
    refine ⟨fun herror => ?_, fun htaken => absurd htaken.1 h⟩
    cases herror

/-- The request is taken whole, and the reply holds a response of this kind. -/
def Confirmed (P : Response → Prop) : Prop :=
  (∃ body, Delivers peer client request body) ∧
    ∃ response, answered peer client = some response ∧ P response

/-- A body that can be read out of what the peer takes off the socket is the one of this request
and of no other, and then the connection took all of it. -/
def ReadsOnly {α : Type} (x : HelperAction α) : Prop :=
  ∀ n body, firstBody ((exchanged peer x).2.sent.take n) = some body →
    Delivers peer client request body ∧
      ∀ other, client.requestToJson other = some body → other = request

variable {peer client request}

theorem operation_confirmed {α : Type} {judge : Response → Except Error α} {P : Response → Prop}
    {a : α} (hjudge : ∀ response, judge response = .ok a ↔ P response) :
    (exchanged peer (operation client request judge)).1 = some (.ok a) ↔
      Confirmed peer client request P := by
  obtain ⟨result, wire, hrun, hok, _⟩ := operation_runs peer client request judge
  rw [hrun, Option.some.injEq, hok a]
  unfold Confirmed
  simp only [hjudge]

/-- A prefix of a frame that holds a frame holds the same one. -/
theorem firstBody_take_frame {body body' : Bytes} {n : Nat} (hfits : body.length ≤ maxBodyBytes)
    (h : firstBody ((frame 4 body).take n) = some body') : body' = body := by
  by_cases hwhole : (frame 4 body).take n = frame 4 body
  · rw [hwhole] at h
    have hself : firstBody (frame 4 body) = some body :=
      firstBody_eq_some.mpr ⟨[], (List.append_nil _).symm, hfits⟩
    exact Option.some.inj (h.symm.trans hself)
  · rw [firstBody_part hfits (List.take_prefix ..) hwhole] at h
    cases h

theorem operation_readsOnly (hencoder : Distinguishes client.requestToJson) {α : Type}
    (judge : Response → Except Error α) :
    ReadsOnly peer client request (operation client request judge) := by
  intro n body hbody
  obtain ⟨result, wire, hrun, _, hsent⟩ := operation_runs peer client request judge
  rw [hrun] at hbody
  rcases hsent with ⟨sent, hdelivers, hsent⟩ | hunsent
  · rw [hsent] at hbody
    obtain rfl : body = sent := firstBody_take_frame hdelivers.2.fits hbody
    exact ⟨hdelivers, fun other hother => hencoder request other body hdelivers.1 hother⟩
  · rw [hunsent n] at hbody
    cases hbody

end Exchange

section Operations

variable (peer : Peer) (client : HelperClient) (content : Text)

/-- Each operation succeeds on its request and a response that says so. The two ways to apply a
bundle differ in a failure that was rolled back. -/
structure SucceedWhenConfirmed : Prop where
  ping : ∀ version, (exchanged peer (ping client)).1 = some (.ok version) ↔
    Confirmed peer client (Request.new client.token .ping) fun response =>
      response.ok = true ∧ response.helperVersion = some version
  ensureDirectories : (exchanged peer (ensureDirectories client)).1 = some (.ok ()) ↔
    Confirmed peer client (Request.new client.token .ensureDirectories) fun response =>
      response.ok = true
  installSshdDropin : ∀ outcome,
    (exchanged peer (installSshdDropin client)).1 = some (.ok outcome) ↔
      Confirmed peer client (Request.new client.token .installSshdDropin) fun response =>
        response.ok = true ∧ response.outcome = outcome
  applyTrustedCaKeys : ∀ outcome,
    (exchanged peer (applyTrustedCaKeys client content)).1 = some (.ok outcome) ↔
      Confirmed peer client (Request.apply client.token content) fun response =>
        response.ok = true ∧ response.outcome = outcome
  verifyState : (exchanged peer (verifyState client)).1 = some (.ok ()) ↔
    Confirmed peer client (Request.new client.token .verifyState) fun response =>
      response.ok = true
  applied : (exchanged peer (client.applyBundle content)).1 = some (.ok .applied) ↔
    ∃ outcome, (exchanged peer (HelperCalls.applyTrustedCaKeys client content)).1 =
      some (.ok outcome)
  rolledBack : (exchanged peer (client.applyBundle content)).1 = some (.ok .rolledBack) ↔
    Confirmed peer client (Request.apply client.token content) fun response =>
      response.ok = false ∧ response.detail ≠ some (text "unauthenticated") ∧
        response.outcome = .rolledBack

theorem operations_confirmed : SucceedWhenConfirmed peer client content where
  ping _ := operation_confirmed fun _ => checkVersion_eq_ok
  ensureDirectories := operation_confirmed fun _ => checkDone_eq_ok
  installSshdDropin _ := operation_confirmed fun _ => checkOk_eq_ok
  applyTrustedCaKeys _ := operation_confirmed fun _ => checkOk_eq_ok
  verifyState := operation_confirmed fun _ => checkDone_eq_ok
  applied := by
    have hkeys : ∀ outcome, (exchanged peer (applyTrustedCaKeys client content)).1 =
        some (.ok outcome) ↔ _ := fun _ => operation_confirmed fun _ => checkOk_eq_ok
    rw [applyBundle_eq, operation_confirmed fun _ => bundleOutcome_eq_applied]
    constructor
    · intro ⟨htakes, response, hresponse, hok⟩
      exact ⟨response.outcome, (hkeys _).mpr ⟨htakes, response, hresponse, hok, rfl⟩⟩
    · intro ⟨outcome, houtcome⟩
      obtain ⟨htakes, response, hresponse, hok, _⟩ := (hkeys outcome).mp houtcome
      exact ⟨htakes, response, hresponse, hok⟩
  rolledBack := by
    rw [applyBundle_eq]
    exact operation_confirmed fun _ => bundleOutcome_eq_rolledBack

/-- What a peer can read out of an operation is the request of that operation and no other. -/
structure Unmistakable : Prop where
  ping : ReadsOnly peer client (Request.new client.token .ping) (ping client)
  ensureDirectories :
    ReadsOnly peer client (Request.new client.token .ensureDirectories) (ensureDirectories client)
  installSshdDropin :
    ReadsOnly peer client (Request.new client.token .installSshdDropin) (installSshdDropin client)
  applyTrustedCaKeys :
    ReadsOnly peer client (Request.apply client.token content) (applyTrustedCaKeys client content)
  applyBundle :
    ReadsOnly peer client (Request.apply client.token content) (client.applyBundle content)
  verifyState : ReadsOnly peer client (Request.new client.token .verifyState) (verifyState client)

theorem operations_unmistakable (hencoder : Distinguishes client.requestToJson) :
    Unmistakable peer client content where
  ping := operation_readsOnly hencoder checkVersion
  ensureDirectories := operation_readsOnly hencoder checkDone
  installSshdDropin := operation_readsOnly hencoder checkOk
  applyTrustedCaKeys := operation_readsOnly hencoder checkOk
  applyBundle := operation_readsOnly hencoder HelperClient.bundleOutcome
  verifyState := operation_readsOnly hencoder checkDone

end Operations

/-- A client that writes compact JSON, in front of a peer that takes everything. -/
def sampleClient : HelperClient where
  socketPath := text "/run/mayfly/helper.sock"
  token := text "capability"
  requestToJson := compactJson
  responseFromJson _ := none

theorem operations_unmistakable_sample :
    Unmistakable Peer.boundless sampleClient (text "# keys\n") :=
  operations_unmistakable Peer.boundless sampleClient (text "# keys\n") compactJson_distinguishes

end MayflyAgent.HelperCalls
