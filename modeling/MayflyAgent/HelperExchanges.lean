import MayflyAgent.HelperStreams

/-!
The exchange behind one apply. If the connection takes the whole request, the result goes by the
reply; otherwise the apply fails and the peer never sees a complete frame. So an error does not
tell whether the helper got the request: it does so exactly if the peer also replies whenever the
request reaches it.
-/
namespace MayflyAgent.HelperExchanges

open RustText Programs Checks Errors Framing CaSync Helper HelperStreams

/-- The body of the first frame of a stream, as `read_frame` reads it. -/
def firstBody (stream : Bytes) : Option Bytes :=
  match (outcome buffer readFrame.run ⟨[], stream⟩).1 with
  | some (.ok body) => some body
  | _ => none

theorem firstBody_eq_some {stream body : Bytes} :
    firstBody stream = some body ↔
      ∃ rest, stream = frame 4 body ++ rest ∧ body.length ≤ maxBodyBytes := by
  simp only [← unframe_eq_ok_iff maxBodyBytes_lt]
  rw [firstBody, outcome_readFrame]
  cases hread : unframe 4 maxBodyBytes stream with
  | ok split =>
    obtain ⟨first, rest⟩ := split
    simp
  | error failure => cases failure <;> simp

theorem firstBody_part {body cut : Bytes} (hbody : body.length ≤ maxBodyBytes)
    (hcut : cut <+: frame 4 body) (hne : cut ≠ frame 4 body) : firstBody cut = none := by
  rw [firstBody, outcome_readFrame, unframe_part maxBodyBytes_lt hbody hcut hne]

theorem firstBody_nil : firstBody [] = none := rfl

/-- Receiving a response succeeds exactly if the bytes hold a frame that decodes. -/
theorem outcome_receive (peer : Peer) (client : HelperClient) (wire : Wire) :
    ∃ result incoming,
      outcome (socket peer) (do
        let body ← readFrame
        Action.ofExcept (client.decodeResponse body)).run wire =
        (some result, ⟨wire.sent, incoming⟩) ∧
      ∀ response, result = .ok response ↔
        (firstBody wire.incoming).bind client.responseFromJson = some response := by
  have hread := outcome_readFrame peer wire
  have hfirst : ∀ body rest, unframe 4 maxBodyBytes wire.incoming = .ok (body, rest) →
      firstBody wire.incoming = some body := fun body rest h =>
    firstBody_eq_some.mpr ⟨rest, (unframe_eq_ok_iff maxBodyBytes_lt).mp h⟩
  cases hframe : unframe 4 maxBodyBytes wire.incoming with
  | ok split =>
    obtain ⟨body, rest⟩ := split
    rw [hframe] at hread
    refine ⟨client.decodeResponse body, rest, outcome_action_ok _ hread, fun response => ?_⟩
    rw [hfirst body rest hframe]
    exact okOr_eq_ok
  | error failure =>
    have hnone : firstBody wire.incoming = none := by
      rw [firstBody, outcome_readFrame, hframe]
      cases failure <;> rfl
    rw [hframe] at hread
    rw [hnone]
    cases failure with
    | truncated => exact ⟨_, _, outcome_action_error _ hread, by simp⟩
    | oversized => exact ⟨_, _, outcome_action_error _ hread, by simp⟩

section Exchanges

variable (a : HelperBundleApplier) (peer : Peer) (contents : Text)

/-- The response that the bytes of the peer hold. -/
def reply : Option Response := (firstBody peer.reply).bind a.responseFromJson

def exchange : Option (Except Error BundleApplyOutcome) × Wire :=
  outcome (socket peer) (a.apply contents).run ⟨[], peer.reply⟩

/-- The body of the request for an apply, with the token as the file holds it. -/
def applyBody (token : Text) : Bytes := requestBody (Request.apply (trimText token) contents)

/-- The connection is made and takes a whole request with this body. -/
structure Takes (body : Bytes) : Prop where
  connects : peer.connects = true
  readTimeout : peer.readTimeout = true
  writeTimeout : peer.writeTimeout = true
  fits : body.length ≤ maxBodyBytes
  accepted : peer.accepted (frame 4 body) = frame 4 body

/-- There is a token, the connection is made, and the socket takes the whole request. -/
structure Sends (token : Text) : Prop extends Takes peer (applyBody contents token) where
  tokenFile : peer.tokenFile = some token

variable {peer contents}

theorem outcome_connect {b : Bool} (h : peer.connects = b) (path : Text) (wire : Wire) :
    outcome (socket peer) (connect path).run wire =
      (some (okOr (granted b) .helperUnavailable), wire) := by
  obtain rfl := h
  rfl

theorem outcome_setReadTimeout {b : Bool} (h : peer.readTimeout = b) (seconds : Nat) (wire : Wire) :
    outcome (socket peer) (setReadTimeout seconds).run wire =
      (some (okOr (granted b) .helperUnavailable), wire) := by
  obtain rfl := h
  rfl

theorem outcome_setWriteTimeout {b : Bool} (h : peer.writeTimeout = b) (seconds : Nat)
    (wire : Wire) :
    outcome (socket peer) (setWriteTimeout seconds).run wire =
      (some (okOr (granted b) .helperUnavailable), wire) := by
  obtain rfl := h
  rfl

theorem outcome_fromPaths {token : Text} (h : peer.tokenFile = some token) (wire : Wire) :
    outcome (socket peer) a.fromPaths.run wire =
      (some (.ok (a.clientFor token)), wire) := by
  have htoken : outcome (socket peer) (readToString a.tokenPath).run wire =
      (some (okOr (some token) .io), wire) := by
    rw [← h]
    rfl
  exact outcome_action_ok _ htoken

theorem take_accepted_part (peer : Peer) (stream : Bytes) (n : Nat) :
    (peer.accepted stream).take n <+: stream :=
  List.IsPrefix.trans (List.take_prefix ..) (accepted_part peer stream)

theorem take_accepted_ne {stream : Bytes} (h : peer.accepted stream ≠ stream) (n : Nat) :
    (peer.accepted stream).take n ≠ stream := by
  intro hwhole
  have hinitial := accepted_part peer stream
  refine h (hinitial.eq_of_length (Nat.le_antisymm hinitial.length_le ?_))
  calc
    stream.length = ((peer.accepted stream).take n).length := by rw [hwhole]
    _ ≤ (peer.accepted stream).length := List.length_take_le' n _

theorem unsent (peer : Peer) (n : Nat) :
    firstBody ((⟨[], peer.reply⟩ : Wire).sent.take n) = none := by
  rw [List.take_nil]
  exact firstBody_nil

section Calls

variable (client : HelperClient) {request : Request} {body : Bytes}

/-- A request that is taken whole is answered with what the bytes of the peer hold. -/
theorem call_takes (hbody : client.requestToJson request = some body) (h : Takes peer body) :
    ∃ result incoming,
      outcome (socket peer) (client.call request).run ⟨[], peer.reply⟩ =
        (some result, ⟨frame 4 body, incoming⟩) ∧
      ∀ response, result = .ok response ↔
        (firstBody peer.reply).bind client.responseFromJson = some response := by
  obtain ⟨result, incoming, hreceive, hreply⟩ := outcome_receive peer client
    ⟨frame 4 body, peer.reply⟩
  have hwrite := outcome_writeFrame peer ⟨[], peer.reply⟩ h.fits h.accepted
  have hencode : encodeRequest client.requestToJson request = .ok body := okOr_eq_ok.mpr hbody
  refine ⟨result, incoming, ?_, hreply⟩
  rw [HelperClient.call, outcome_action_ok _ (outcome_connect h.connects _ _),
    outcome_action_ok _ (outcome_setReadTimeout h.readTimeout _ _),
    outcome_action_ok _ (outcome_setWriteTimeout h.writeTimeout _ _), hencode, ofExcept_ok_bind,
    outcome_action_ok _ hwrite]
  exact hreceive

/-- A request that is not taken whole fails, and what the socket took of it holds no frame. -/
theorem call_refused (h : ∀ body, client.requestToJson request = some body → ¬ Takes peer body) :
    ∃ e wire, outcome (socket peer) (client.call request).run ⟨[], peer.reply⟩ =
      (some (.error e), wire) ∧ ∀ n, firstBody (wire.sent.take n) = none := by
  rw [HelperClient.call]
  cases hconnects : peer.connects with
  | false => exact ⟨_, _, outcome_action_error _ (outcome_connect hconnects _ _), unsent peer⟩
  | true =>
  rw [outcome_action_ok _ (outcome_connect hconnects _ _)]
  cases hread : peer.readTimeout with
  | false => exact ⟨_, _, outcome_action_error _ (outcome_setReadTimeout hread _ _), unsent peer⟩
  | true =>
  rw [outcome_action_ok _ (outcome_setReadTimeout hread _ _)]
  cases hwrite : peer.writeTimeout with
  | false => exact ⟨_, _, outcome_action_error _ (outcome_setWriteTimeout hwrite _ _), unsent peer⟩
  | true =>
  rw [outcome_action_ok _ (outcome_setWriteTimeout hwrite _ _)]
  cases hbody : client.requestToJson request with
  | none =>
    rw [encodeRequest, hbody]
    exact ⟨_, _, rfl, unsent peer⟩
  | some body =>
  have hencode : encodeRequest client.requestToJson request = .ok body := okOr_eq_ok.mpr hbody
  rw [hencode, ofExcept_ok_bind]
  by_cases hfits : body.length ≤ maxBodyBytes
  · have hrefused : peer.accepted (frame 4 body) ≠ frame 4 body := fun haccepted =>
      h body hbody ⟨hconnects, hread, hwrite, hfits, haccepted⟩
    refine ⟨_, _, outcome_action_error _
      (outcome_writeFrame_refused peer ⟨[], peer.reply⟩ hfits hrefused), fun n => ?_⟩
    exact firstBody_part hfits (take_accepted_part ..) (take_accepted_ne hrefused n)
  · have hthrow : outcome (socket peer) (writeFrame body).run ⟨[], peer.reply⟩ =
        (some (.error .helperProtocol), ⟨[], peer.reply⟩) := by
      rw [writeFrame, if_pos (Nat.lt_of_not_le hfits)]
      rfl
    exact ⟨_, _, outcome_action_error _ hthrow, unsent peer⟩

end Calls

/-- Once the whole request is taken, the result goes by the reply. -/
theorem exchange_sends {token : Text} (h : Sends peer contents token) :
    ∃ result incoming,
      exchange a peer contents =
        (some result, ⟨frame 4 (applyBody contents token), incoming⟩) ∧
      (∀ response, reply a peer = some response → result = HelperClient.bundleOutcome response) ∧
      (reply a peer = none → ∃ e, result = .error e) := by
  have hbody : (a.clientFor token).requestToJson (Request.apply (trimText token) contents) =
      some (applyBody contents token) := rfl
  obtain ⟨received, incoming, hcall, hreply⟩ := call_takes (a.clientFor token) hbody h.toTakes
  rw [exchange, HelperBundleApplier.apply, outcome_action_ok _ (outcome_fromPaths a h.tokenFile _),
    HelperClient.applyBundle]
  cases received with
  | ok response =>
    have hresponse : reply a peer = some response := (hreply response).mp rfl
    refine ⟨_, _, outcome_action_ok _ hcall, fun other hother => ?_, fun hnone => ?_⟩
    · rw [Option.some.inj (hother.symm.trans hresponse)]
    · simp [hnone] at hresponse
  | error e =>
    refine ⟨_, _, outcome_action_error _ hcall, fun other hother => ?_, fun _ => ⟨e, rfl⟩⟩
    cases (hreply other).mpr hother

theorem exchange_fails (h : ¬ ∃ token, Sends peer contents token) :
    ∃ e wire, exchange a peer contents = (some (.error e), wire) ∧
      ∀ n, firstBody (wire.sent.take n) = none := by
  rw [exchange, HelperBundleApplier.apply]
  cases htoken : peer.tokenFile with
  | none =>
    have hread : outcome (socket peer) (readToString a.tokenPath).run ⟨[], peer.reply⟩ =
        (some (okOr none .io), ⟨[], peer.reply⟩) := by
      rw [← htoken]
      rfl
    exact ⟨_, _, outcome_action_error _ (outcome_action_error _ hread), unsent peer⟩
  | some token =>
    have hrefused : ∀ body, (a.clientFor token).requestToJson
        (Request.apply (trimText token) contents) = some body → ¬ Takes peer body := by
      intro body hbody htakes
      obtain rfl : applyBody contents token = body := Option.some.inj hbody
      exact h ⟨token, htakes, htoken⟩
    obtain ⟨e, wire, hcall, hunsent⟩ := call_refused (a.clientFor token) hrefused
    rw [outcome_action_ok _ (outcome_fromPaths a htoken _), HelperClient.applyBundle]
    exact ⟨e, wire, outcome_action_error _ hcall, hunsent⟩

variable (peer contents)

/-- The peer got a complete request. -/
def Delivered : Prop :=
  ∃ body, firstBody ((exchange a peer contents).2.sent.take peer.takes) = some body

def ErrorMeansRefused : Prop :=
  ∀ e, (exchange a peer contents).1 = some (.error e) →
    ¬ Delivered a peer contents ∨ ∃ response, reply a peer = some response ∧ response.ok = false

/-- The socket takes the whole request, and the peer takes all of it off the socket. -/
def Reached : Prop :=
  ∃ token, Sends peer contents token ∧ (frame 4 (applyBody contents token)).length ≤ peer.takes

theorem delivered_iff : Delivered a peer contents ↔ Reached peer contents := by
  by_cases h : ∃ token, Sends peer contents token
  · obtain ⟨token, hsends⟩ := h
    obtain ⟨result, incoming, hexchange, _⟩ := exchange_sends a hsends
    rw [Delivered, hexchange]
    constructor
    · rintro ⟨body, hbody⟩
      refine ⟨token, hsends, Nat.le_of_not_lt fun hshort => ?_⟩
      have hpart : (frame 4 (applyBody contents token)).take peer.takes ≠
          frame 4 (applyBody contents token) := by
        intro hwhole
        have hlength := congrArg List.length hwhole
        rw [List.length_take] at hlength
        omega
      rw [firstBody_part hsends.fits (List.take_prefix ..) hpart] at hbody
      cases hbody
    · rintro ⟨token', hsends', htakes⟩
      obtain rfl : token = token' :=
        Option.some.inj (hsends.tokenFile.symm.trans hsends'.tokenFile)
      refine ⟨applyBody contents token, firstBody_eq_some.mpr ⟨[], ?_, hsends.fits⟩⟩
      rw [List.append_nil, List.take_of_length_le htakes]
  · obtain ⟨e, wire, hexchange, hunsent⟩ := exchange_fails a h
    refine iff_of_false ?_ fun ⟨token, hsends, _⟩ => h ⟨token, hsends⟩
    rintro ⟨body, hbody⟩
    rw [hexchange, hunsent] at hbody
    cases hbody

theorem bundleOutcome_error {response : Response} {e : Error}
    (h : HelperClient.bundleOutcome response = .error e) : response.ok = false := by
  unfold HelperClient.bundleOutcome at h
  cases hok : response.ok with
  | false => rfl
  | true => simp [hok] at h

/-- An error means that the helper did not get the request or refused it exactly if the peer
replies to a request that reaches it. -/
theorem error_means_refused_iff :
    ErrorMeansRefused a peer contents ↔
      (Reached peer contents → ∃ response, reply a peer = some response) := by
  constructor
  · intro hrefused hreached
    obtain ⟨token, hsends, _⟩ := id hreached
    obtain ⟨result, incoming, hexchange, _, hlost⟩ := exchange_sends a hsends
    cases hreply : reply a peer with
    | some response => exact ⟨response, rfl⟩
    | none =>
      obtain ⟨e, rfl⟩ := hlost hreply
      rcases hrefused e (by rw [hexchange]) with hundelivered | ⟨response, hresponse, _⟩
      · exact absurd ((delivered_iff a peer contents).mpr hreached) hundelivered
      · rw [hreply] at hresponse
        cases hresponse
  · intro hreplies e herror
    by_cases hdelivered : Delivered a peer contents
    · have hreached := (delivered_iff a peer contents).mp hdelivered
      obtain ⟨response, hresponse⟩ := hreplies hreached
      obtain ⟨token, hsends, _⟩ := hreached
      obtain ⟨result, incoming, hexchange, hmaps, _⟩ := exchange_sends a hsends
      rw [hexchange] at herror
      have hresult := Option.some.inj herror
      rw [hmaps response hresponse] at hresult
      exact Or.inr ⟨response, hresponse, bundleOutcome_error hresult⟩
    · exact Or.inl hdelivered

end Exchanges

/-- A peer that takes the request and closes before it replies. -/
def silent : Peer := { Peer.boundless with tokenFile := some (text "capability\n"), takes := 4096 }

def sampleApplier (responseFromJson : Bytes → Option Response) : HelperBundleApplier where
  socketPath := text "/run/mayfly/helper.sock"
  tokenPath := text "/etc/mayfly-agent/helper.token"
  responseFromJson := responseFromJson

theorem silent_sends : Sends silent (text "# keys\n") (text "capability\n") where
  tokenFile := rfl
  connects := rfl
  readTimeout := rfl
  writeTimeout := rfl
  fits := by decide +kernel
  accepted := rfl

/-- The request arrives, the reply does not, and the apply fails. -/
theorem silent_error :
    ¬ ErrorMeansRefused (sampleApplier fun _ => none) silent (text "# keys\n") := by
  intro hrefused
  obtain ⟨result, incoming, hexchange, _, hlost⟩ :=
    exchange_sends (sampleApplier fun _ => none) silent_sends
  obtain ⟨e, rfl⟩ := hlost rfl
  have hreached : Reached silent (text "# keys\n") := ⟨_, silent_sends, by decide +kernel⟩
  rcases hrefused e (by rw [hexchange]) with hundelivered | ⟨response, hresponse, _⟩
  · exact hundelivered ((delivered_iff _ _ _).mpr hreached)
  · cases hresponse

end MayflyAgent.HelperExchanges
