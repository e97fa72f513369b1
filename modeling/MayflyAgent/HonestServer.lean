import MayflyAgent.SyncResults
import MayflyAgent.SyncProgress

/-!
Runs against an honest server that rotates its bundle at any time, with a helper that may
lose its reply, HTTP calls and writes that may fail, and an agent that may be killed
anywhere. The host may be ahead of the recorded fingerprint but never behind it. With that,
a matching entity tag means that the host has the current bundle, and a pass that succeeds
leaves the host with the bundle the server held when it answered.
-/
namespace MayflyAgent.HonestServer

open RustText KeyedSort Programs Checks Errors Bundles BundleEncoding BundleValidation TrustedCa
open StateFiles CaSync SyncPasses SyncCourses SyncProgress SyncResults

structure Held where
  generation : UInt64
  keys : List CaBundleKey

/-- The bundles a server has held, newest first: a rotation raises the generation. -/
structure Server where
  current : Held
  past : List Held
  descending : (current :: past).Pairwise fun newer older => older.generation < newer.generation

def Server.held (server : Server) : List Held := server.current :: server.past

/-- No, one or several rotations later. -/
def Rotates (server later : Server) : Prop := server.held <:+ later.held

theorem Server.generation_le {server : Server} {held : Held} (h : held ∈ server.held) :
    held.generation ≤ server.current.generation := by
  rcases List.mem_cons.mp h with rfl | hpast
  · exact UInt64.le_refl _
  · exact UInt64.le_of_lt (List.rel_of_pairwise_cons server.descending hpast)

theorem Server.eq_current {server : Server} {held : Held} (h : held ∈ server.held)
    (hle : server.current.generation ≤ held.generation) : held = server.current := by
  rcases List.mem_cons.mp h with rfl | hpast
  · rfl
  · exact absurd (List.rel_of_pairwise_cons server.descending hpast) (UInt64.not_lt.mpr hle)

theorem Server.eq_of_generation (server : Server) {x y : Held} (hx : x ∈ server.held)
    (hy : y ∈ server.held) (h : x.generation = y.generation) : x = y := by
  have hnodup : (server.held.map Held.generation).Nodup :=
    nodup_map_iff.mpr (server.descending.imp fun hlt => (UInt64.ne_of_lt hlt).symm)
  exact List.inj_on_of_nodup_map hnodup hx hy h

theorem Rotates.refl (server : Server) : Rotates server server := List.suffix_refl _

theorem Rotates.trans {a b c : Server} (hab : Rotates a b) (hbc : Rotates b c) : Rotates a c :=
  List.IsSuffix.trans hab hbc

theorem Rotates.current_eq {a b : Server} (hab : Rotates a b) (hba : Rotates b a) :
    a.current = b.current := by
  have hheld : a.held = b.held := List.IsSuffix.eq_of_length hab
    (Nat.le_antisymm hab.length_le hba.length_le)
  exact (List.cons.inj hheld).1

theorem Rotates.mem {server later : Server} (h : Rotates server later) {held : Held}
    (hheld : held ∈ server.held) : held ∈ later.held := h.subset hheld

def Held.fingerprint (ext : Crypto) (held : Held) : Text :=
  computeFingerprint ext held.generation held.keys

/-- What the agent makes of the envelope, but for the validity window and the signing key. -/
def Held.bundle (ext : Crypto) (held : Held) : CaBundle where
  bundleVersion := 1
  generation := held.generation
  fingerprint := held.fingerprint ext
  createdAt := 0
  expiresAt := 0
  keys := sortByKeyId held.keys
  signingPublicKey := []

/-- The rendering looks neither at the window nor at the signing key. -/
def Held.body (ext : Crypto) (held : Held) : Text := renderTrustedUserCaKeys (held.bundle ext)

/-- The value of the If-None-Match header of a request. -/
def requestTag (request : HttpRequest) : Option Text := request.headers.lookup headerIfNoneMatch

/-- The envelope has the held bundle, under its fingerprint and the key of the server. -/
structure Describes (ext : Crypto) (key : Text) (held : Held) (raw : CaBundleResponse) : Prop where
  generation : raw.generation = some held.generation
  keys : raw.keys = held.keys
  fingerprint : raw.fingerprint = some (held.fingerprint ext)
  signingKey : raw.bundleSigningPublicKey = some key

/-- 304 for the entity tag of the current bundle, and otherwise 200 with its envelope. -/
def Replies (client : Client) (key : Text) (server : Server) (request : HttpRequest)
    (response : HttpResponse) : Prop :=
  if requestTag request = some (quoted (server.current.fingerprint client.toCrypto)) then
    response.status = statusNotModified
  else
    response.status = 200 ∧ ∃ raw, client.bundleFromJson response.body = some raw ∧
      Describes client.toCrypto key server.current raw

structure ServedWorld where
  dir : StateDir
  host : Option Text
  server : Server

/-- An apply that fails may have changed the host before its reply was lost. -/
def HostMoves (before after : Option Text) : (op : SyncOp) → op.Answer → Prop
  | .apply contents, answer =>
    answer = Except.ok BundleApplyOutcome.applied ∧ after = some contents ∨
    answer = Except.ok BundleApplyOutcome.rolledBack ∧ after = before ∨
    (∃ e : Error, answer = Except.error e) ∧ (after = before ∨ after = some contents)
  | _, _ => after = before

/-- A GET fails or is answered honestly. -/
def ServerAnswers (client : Client) (key : Text) (server : Server) :
    (op : SyncOp) → op.Answer → Prop
  | .get request, answer => (∃ e : Error, answer = Except.error e) ∨
    ∃ response, answer = Except.ok response ∧ Replies client key server request response
  | _, _ => True

/-- The server may rotate during every call. -/
def honest (client : Client) (key : Text) : Environment syncSignature ServedWorld :=
  fun w op answer w' => FileMoves w.dir w'.dir op answer ∧ HostMoves w.host w'.host op answer ∧
    ServerAnswers client key w.server op answer ∧ Rotates w.server w'.server

abbrev ServedPass := Pass syncSignature ServedWorld (Except Error SyncOutcome)

variable (s : CaSyncService) (key : Text)

theorem honest_respects : Respects (honest s.client key) ServedWorld.dir :=
  fun _ _ _ _ h => h.1

theorem requestTag_bundleRequest (signed : SignedHeaders) (fingerprint : Option Text) :
    requestTag (s.bundleRequest signed fingerprint) = fingerprint.map quoted := by
  have hsigning : (signingHeaders signed).lookup headerIfNoneMatch = none := by
    rw [List.lookup_eq_none_iff]
    have hother : ∀ name ∈ (signingHeaders signed).map Prod.fst, name ≠ headerIfNoneMatch := by
      simp only [signingHeaders, List.map_cons, List.map_nil, List.forall_mem_cons]
      exact ⟨by decide +kernel, by decide +kernel, by decide +kernel, by decide +kernel, by simp⟩
    intro header hheader
    simpa using (hother header.1 (List.mem_map_of_mem hheader)).symm
  unfold requestTag CaSyncService.bundleRequest
  simp only [List.lookup_append, hsigning, Option.none_or]
  cases fingerprint with
  | none => rfl
  | some fingerprint => simp

/-- The records and the body of a bundle are those of a held one. -/
structure Mirrors (ext : Crypto) (held : Held) (bundle : CaBundle) : Prop where
  generation : bundle.generation = held.generation
  fingerprint : bundle.fingerprint = held.fingerprint ext
  body : renderTrustedUserCaKeys bundle = held.body ext

theorem Mirrors.record {ext : Crypto} {held : Held} {bundle : CaBundle}
    (h : Mirrors ext held bundle) (file : StateFile) :
    recordLine bundle file = recordLine (held.bundle ext) file := by
  cases file <;> simp only [recordLine, h.generation, h.fingerprint, Held.bundle]

theorem mirrors_of_carries {ext : Crypto} {held : Held} {raw : CaBundleResponse}
    {bundle : CaBundle} (hcarries : Carries ext raw bundle) (hraw : Describes ext key held raw) :
    Mirrors ext held bundle ∧ bundle.signingPublicKey = key := by
  have hgeneration : bundle.generation = held.generation :=
    Option.some.inj (hcarries.generation.symm.trans hraw.generation)
  have hfingerprint : bundle.fingerprint = held.fingerprint ext :=
    Option.some.inj (hcarries.fingerprint.symm.trans hraw.fingerprint)
  have hkeys : bundle.keys = sortByKeyId held.keys := by rw [hcarries.keys, hraw.keys]
  refine ⟨⟨hgeneration, hfingerprint, ?_⟩,
    Option.some.inj (hcarries.signingKey.symm.trans hraw.signingKey)⟩
  simp only [Held.body, renderTrustedUserCaKeys, Held.bundle, hcarries.version, hgeneration,
    hfingerprint, hkeys]

/-- The host has a bundle no older than the recorded one. -/
structure Linked (ext : Crypto) (key : Text) (server : Server) (w : ServedWorld) : Prop where
  fingerprint : w.dir .fingerprint = .missing ∨
    ∃ recorded ∈ server.held, ∃ trusted ∈ server.held,
      w.dir .fingerprint = .regular (recordLine (recorded.bundle ext) .fingerprint) ∧
      w.host = some (trusted.body ext) ∧ recorded.generation ≤ trusted.generation
  generation : w.dir .generation = .missing ∨ ∃ recorded ∈ server.held,
    w.dir .generation = .regular (recordLine (recorded.bundle ext) .generation)
  pin : w.dir .signingKey = .missing ∨ Pinned w.dir key

section Linking

variable {ext : Crypto} {server : Server} {w w' : ServedWorld}

theorem linked_empty : Linked ext key server ⟨StateDir.empty, none, server⟩ :=
  ⟨Or.inl rfl, Or.inl rfl, Or.inl rfl⟩

variable {key}

theorem Linked.rotates {later : Server} (h : Linked ext key server w)
    (hlater : Rotates server later) : Linked ext key later w where
  fingerprint := h.fingerprint.imp id fun ⟨recorded, hrecorded, trusted, htrusted, hrest⟩ =>
    ⟨recorded, hlater.mem hrecorded, trusted, hlater.mem htrusted, hrest⟩
  generation := h.generation.imp id fun ⟨recorded, hrecorded, hfile⟩ =>
    ⟨recorded, hlater.mem hrecorded, hfile⟩
  pin := h.pin

/-- No two bundles the server has held collide under the digest. -/
def CollisionFree (ext : Crypto) (server : Server) : Prop :=
  ∀ x ∈ server.held, ∀ y ∈ server.held,
    ext.sha256 (encodeUtf8 (canonicalJson x.generation x.keys)) =
      ext.sha256 (encodeUtf8 (canonicalJson y.generation y.keys)) →
    canonicalJson x.generation x.keys = canonicalJson y.generation y.keys

theorem CollisionFree.earlier {later : Server} (h : CollisionFree ext later)
    (hrotates : Rotates server later) : CollisionFree ext server :=
  fun x hx y hy => h x (hrotates.mem hx) y (hrotates.mem hy)

theorem CollisionFree.fingerprint_eq (h : CollisionFree ext server) {x y : Held}
    (hx : x ∈ server.held) (hy : y ∈ server.held)
    (heq : x.fingerprint ext = y.fingerprint ext) : x = y := by
  have hdigest := Vector.toList_inj.mp (hexEncode_injective (List.append_cancel_left heq))
  exact server.eq_of_generation hx hy
    ((canonicalJson_eq_iff _ _ _ _).mp (h x hx y hy hdigest)).1

/-- When the recorded fingerprint is the current one, the host is up to date. -/
theorem Linked.up_to_date (h : Linked ext key server w) (hfree : CollisionFree ext server)
    (hread : w.dir.readString .fingerprint = .ok (some (server.current.fingerprint ext))) :
    w.host = some (server.current.body ext) := by
  rcases h.fingerprint with hmissing | ⟨recorded, hrecorded, trusted, htrusted, hfile, hhost, hle⟩
  · rw [readString_missing hmissing] at hread
    cases hread
  have hrecord : recorded.fingerprint ext = server.current.fingerprint ext := by
    have hstored : w.dir.readString .fingerprint = .ok (some (recorded.fingerprint ext)) :=
      readString_fingerprint hfile
    exact Option.some.inj (Except.ok.inj (hstored.symm.trans hread))
  obtain rfl : recorded = server.current :=
    hfree.fingerprint_eq hrecorded (List.mem_cons_self ..) hrecord
  rw [hhost, server.eq_current htrusted hle]

/-- The state that is read back says nothing that the server has not held. -/
theorem Linked.loads (h : Linked ext key server w) :
    ∃ persisted, w.dir.load = .ok persisted ∧
      (∀ g, persisted.generation = some g → g ≤ server.current.generation) ∧
      ∀ pin, persisted.signingKey = some pin → pin = trimText key := by
  have hgeneration : ∃ generation, w.dir.readGeneration = .ok generation ∧
      ∀ g, generation = some g → g ≤ server.current.generation := by
    rcases h.generation with hmissing | ⟨recorded, hrecorded, hfile⟩
    · exact ⟨_, readGeneration_missing hmissing, by simp⟩
    · refine ⟨_, readGeneration_recordLine hfile, fun g hg => ?_⟩
      rw [← Option.some.inj hg]
      exact server.generation_le hrecorded
  have hfingerprint : ∃ fingerprint, w.dir.readString .fingerprint = .ok fingerprint := by
    rcases h.fingerprint with hmissing | ⟨recorded, _, _, _, hfile, _⟩
    · exact ⟨_, readString_missing hmissing⟩
    · exact ⟨_, readString_fingerprint hfile⟩
  have hkey : ∃ signingKey, w.dir.readString .signingKey = .ok signingKey ∧
      ∀ pin, signingKey = some pin → pin = trimText key := by
    rcases h.pin with hmissing | ⟨hfile, hne⟩
    · exact ⟨_, readString_missing hmissing, by simp⟩
    · exact ⟨_, readString_storedLine hfile hne, fun pin hpin => (Option.some.inj hpin).symm⟩
  obtain ⟨generation, hgeneration, hle⟩ := hgeneration
  obtain ⟨fingerprint, hfingerprint⟩ := hfingerprint
  obtain ⟨signingKey, hkey, htrim⟩ := hkey
  exact ⟨⟨generation, fingerprint, signingKey⟩,
    load_eq_ok.mpr ⟨hgeneration, hfingerprint, hkey⟩, hle, htrim⟩

end Linking

section Steps

variable {s key} {server : Server} {e : SyncEvent ServedWorld}

theorem host_kept (he : honest s.client key e.before e.op e.answer e.after)
    (hop : isApply e.op = false) : e.after.host = e.before.host := by
  obtain ⟨v, op, answer, v'⟩ := e
  cases op with
  | apply contents => cases hop
  | _ => exact he.2.1

/-- The helper is asked for the current bundle only, records are written only when the host
has it, and the pin is the key of the server. -/
structure Proper (client : Client) (key : Text) (server : Server) (e : SyncEvent ServedWorld) :
    Prop where
  apply : ∀ contents, e.op = .apply contents → contents = server.current.body client.toCrypto
  record : ∀ file contents mode, e.op = .secureWrite file contents mode → IsRecord file →
    e.before.host = some (server.current.body client.toCrypto) ∧
      contents = recordLine (server.current.bundle client.toCrypto) file
  pin : ∀ contents mode, e.op = .secureWrite .signingKey contents mode →
    contents = storedLine key ∧ trimText key ≠ []

theorem linked_event (he : honest s.client key e.before e.op e.answer e.after)
    (hproper : Proper s.client key server e)
    (h : Linked s.client.toCrypto key server e.before) :
    Linked s.client.toCrypto key server e.after := by
  have hcurrent : server.current ∈ server.held := List.mem_cons_self ..
  have hhost : e.after.host = e.before.host ∨
      e.after.host = some (server.current.body s.client.toCrypto) := by
    cases hop : isApply e.op with
    | false => exact Or.inl (host_kept he hop)
    | true =>
      obtain ⟨v, op, answer, v'⟩ := e
      cases op with
      | apply contents =>
        have hcontents := hproper.apply contents rfl
        rcases he.2.1 with ⟨_, hafter⟩ | ⟨_, hafter⟩ | ⟨_, hafter | hafter⟩
        · exact Or.inr (hafter.trans (congrArg some hcontents))
        · exact Or.inl hafter
        · exact Or.inl hafter
        · exact Or.inr (hafter.trans (congrArg some hcontents))
      | _ => cases hop
  have hrecord : ∀ file, IsRecord file → e.after.dir file = e.before.dir file ∨
      e.after.host = some (server.current.body s.client.toCrypto) ∧ e.after.dir file =
        .regular (recordLine (server.current.bundle s.client.toCrypto) file) := by
    intro file hfile
    rcases he.1.file file with hsame | ⟨contents, mode, hop, hafter⟩
    · exact Or.inl hsame
    · obtain ⟨hbefore, rfl⟩ := hproper.record file contents mode hop hfile
      have hkept := host_kept he (by rw [hop]; rfl)
      exact Or.inr ⟨hkept.trans hbefore, hafter⟩
  refine ⟨?_, ?_, ?_⟩
  · rcases hrecord .fingerprint (Or.inr rfl) with hsame | ⟨htrusts, hfile⟩
    · rcases h.fingerprint with
        hmissing | ⟨recorded, hrecorded, trusted, htrusted, hfile, hbody, hle⟩
      · exact Or.inl (hsame.trans hmissing)
      right
      rcases hhost with hkept | hcurrentBody
      · exact ⟨recorded, hrecorded, trusted, htrusted, hsame.trans hfile, hkept.trans hbody, hle⟩
      · exact ⟨recorded, hrecorded, server.current, hcurrent, hsame.trans hfile, hcurrentBody,
          server.generation_le hrecorded⟩
    · exact Or.inr ⟨server.current, hcurrent, server.current, hcurrent, hfile, htrusts,
        UInt64.le_refl _⟩
  · rcases hrecord .generation (Or.inl rfl) with hsame | ⟨_, hfile⟩
    · exact h.generation.imp hsame.trans fun ⟨recorded, hrecorded, hfile⟩ =>
        ⟨recorded, hrecorded, hsame.trans hfile⟩
    · exact Or.inr ⟨server.current, hcurrent, hfile⟩
  · rcases he.1.file .signingKey with hsame | ⟨contents, mode, hop, hafter⟩
    · exact h.pin.imp hsame.trans fun hpinned => ⟨hsame.trans hpinned.1, hpinned.2⟩
    · obtain ⟨rfl, hne⟩ := hproper.pin contents mode hop
      exact Or.inr ⟨hafter, hne⟩

end Steps

section Parts

variable {s key} {server : Server} {w w' : ServedWorld} {trace : List (SyncEvent ServedWorld)}

theorem exec_rotates {α : Type} {p : Program syncSignature α} {result : Option α}
    (h : Exec (honest s.client key) p w trace result w') :
    Rotates w.server w'.server ∧
      ∀ e ∈ trace, Rotates w.server e.before.server ∧ Rotates e.before.server w'.server := by
  have hstep : ∀ e ∈ trace, Rotates e.before.server e.after.server := fun e he =>
    (h.event_env e he).2.2.2
  have hrefl : ∀ v : ServedWorld, Rotates v.server v.server := fun v => Rotates.refl _
  have htrans : ∀ u v x : ServedWorld, Rotates u.server v.server → Rotates v.server x.server →
      Rotates u.server x.server := fun _ _ _ huv hvx => huv.trans hvx
  refine ⟨h.relates hrefl htrans hstep, fun e he => ?_⟩
  obtain ⟨hbefore, hafter⟩ := h.relates_around hrefl htrans hstep e he
  exact ⟨hbefore, (hstep e he).trans hafter⟩

theorem host_unasked {α : Type} {p : Program syncSignature α} {result : Option α}
    (h : Exec (honest s.client key) p w trace result w')
    (hops : ∀ e ∈ trace, isApply e.op = false) : w'.host = w.host :=
  h.frame ServedWorld.host fun e he => host_kept (h.event_env e he) (hops e he)

theorem linked_proper {α : Type} {p : Program syncSignature α} {result : Option α}
    (h : Exec (honest s.client key) p w trace result w')
    (hproper : ∀ e ∈ trace, Proper s.client key server e)
    (hw : Linked s.client.toCrypto key server w) : Linked s.client.toCrypto key server w' :=
  (h.invariant (fun e he => linked_event (h.event_env e he) (hproper e he)) hw).1

/-- Quiet calls that leave the pin alone keep the link and the host. -/
theorem linked_quiet {α : Type} {p : Program syncSignature α} {result : Option α}
    (h : Exec (honest s.client key) p w trace result w')
    (hquiet : ∀ e ∈ trace, IsQuiet e.op)
    (hpin : ∀ e ∈ trace, ∀ contents mode, e.op = .secureWrite .signingKey contents mode →
      contents = storedLine key ∧ trimText key ≠ [])
    (hw : Linked s.client.toCrypto key server w) :
    Linked s.client.toCrypto key server w' ∧ w'.host = w.host := by
  refine ⟨linked_proper h (fun e he => ⟨?_, ?_, hpin e he⟩) hw,
    host_unasked h fun e he => quiet_not_apply (hquiet e he)⟩
  · intro contents hop
    have hasked := hquiet e he
    rw [hop] at hasked
    exact absurd hasked not_false
  · intro file contents mode hop hfile
    have hwrites := hquiet e he
    rw [hop] at hwrites
    exact absurd hfile hwrites

/-- Asked for the current bundle, the helper keeps the link whatever it does. -/
theorem linked_apply {v v' : ServedWorld} {contents : Text}
    {answer : Except Error BundleApplyOutcome}
    (h : honest s.client key v (.apply contents) answer v')
    (hcontents : contents = server.current.body s.client.toCrypto)
    (hv : Linked s.client.toCrypto key server v) : Linked s.client.toCrypto key server v' := by
  refine linked_event (e := applyEvent v v' contents answer) h ⟨?_, ?_, ?_⟩ hv
  · rintro _ ⟨⟩
    exact hcontents
  · rintro _ _ _ ⟨⟩
  · rintro _ _ ⟨⟩

/-- Storing the current bundle once the host has it keeps both. -/
theorem linked_storing {bundle : CaBundle} {α : Type} {p : Program syncSignature α}
    {result : Option α} (h : Exec (honest s.client key) p w trace result w')
    (hops : ∀ e ∈ trace, IsStoring s bundle e.op)
    (hbundle : Mirrors s.client.toCrypto server.current bundle)
    (hkey : bundle.signingPublicKey = key ∧ trimText key ≠ [])
    (hw : Linked s.client.toCrypto key server w)
    (hhost : w.host = some (server.current.body s.client.toCrypto)) :
    Linked s.client.toCrypto key server w' ∧
      w'.host = some (server.current.body s.client.toCrypto) := by
  have hkept : ∀ e ∈ trace, isApply e.op = false := fun e he => storing_not_apply s (hops e he)
  have hhosts := (h.invariant
    (I := fun v => v.host = some (server.current.body s.client.toCrypto)) ?_ hhost).2
  · refine ⟨linked_proper h (fun e he => ⟨?_, ?_, ?_⟩) hw, (host_unasked h hkept).trans hhost⟩
    · intro contents hop
      have hasked := hkept e he
      rw [hop] at hasked
      cases hasked
    · intro file contents mode hop hfile
      have hwrites := hops e he
      rw [hop] at hwrites
      exact ⟨(hhosts e he).1, (storing_record s hwrites hfile).trans (hbundle.record file)⟩
    · intro contents mode hop
      have hwrites := hops e he
      rw [hop] at hwrites
      exact ⟨hwrites.2.trans (congrArg storedLine hkey.1), hkey.2⟩
  · exact fun e he hbefore => (host_kept (h.event_env e he) (hkept e he)).trans hbefore

end Parts

end MayflyAgent.HonestServer
