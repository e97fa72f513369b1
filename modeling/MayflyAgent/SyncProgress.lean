import MayflyAgent.SyncCourses
import MayflyAgent.BundleRendering

/-!
What a pass achieves when nothing hinders it: reads and writes work, the server answers,
the helper applies. An offered bundle that validation accepts and that differs from the
recorded one is then handed to the helper, and every file gets its value.
-/
namespace MayflyAgent.SyncProgress

open RustText Programs Checks Errors Bundles BundleValidation TrustedCa StateFiles CaSync
open SyncPasses SyncCourses BundleRendering

variable {W : Type}

/-- Calls can be answered the way the agent hopes for, and these worlds are the result. -/
structure Working (env : Environment syncSignature W) (dir : W → StateDir) (now : Time)
    (put : W → StateFile → Bytes → W) (obey : W → Text → W) : Prop where
  read : ∀ w file, env w (.read file) (readEntry (dir w file)) w
  write : ∀ w file contents mode, env w (.secureWrite file contents mode) (.ok ())
    (put w file contents)
  clock : ∀ w, env w .now now w
  random : ∀ w, env w .randomBytes (Vector.replicate 16 0) w
  post : ∀ w request, env w (.post request) (.ok ⟨200, []⟩) w
  apply : ∀ w contents, env w (.apply contents) (.ok .applied) (obey w contents)
  dir_put : ∀ w file contents, dir (put w file contents) = (dir w).install file contents
  dir_obey : ∀ w contents, dir (obey w contents) = dir w

/-- The keypair signs, the serializer serializes and the clock reading can be formatted. -/
structure Capable (s : CaSyncService) (now : Time) (stamp : Text) : Prop where
  sign : ∀ message, ∃ signature, s.client.sign message = some signature
  json : ∀ report, ∃ body, s.client.ackToJson report = some body
  stamp : s.client.formatRfc3339 now = some stamp

section Progress

variable {env : Environment syncSignature W} {dir : W → StateDir} {now : Time}
variable {put : W → StateFile → Bytes → W} {obey : W → Text → W}
variable (hworks : Working env dir now put obey)
variable {s : CaSyncService} {stamp : Text} (hcapable : Capable s now stamp)

theorem finishes {α : Type} {r : Except Error α} {a : α} (w : W) (h : r = .ok a) :
    Exec env (Action.ofExcept r : SyncAction α).run w [] (some (.ok a)) w := by
  rw [h]
  exact Exec.finished _ w

include hworks in
theorem reads {α : Type} {w : W} {file : StateFile} {f : Except ReadError Bytes → Except Error α}
    {a : α} (h : f (readEntry (dir w file)) = .ok a) :
    Exec env (readFile file >>= fun answer => Action.ofExcept (f answer)).run w
      [⟨w, .read file, readEntry (dir w file), w⟩] (some (.ok a)) w :=
  Exec.step (hworks.read w file) (finishes w h)

include hworks in
theorem loads {w : W} {persisted : PersistedState} (h : (dir w).load = .ok persisted) :
    ∃ trace, Exec env loadState.run w trace (some (.ok persisted)) w := by
  obtain ⟨hgeneration, hfingerprint, hkey⟩ := load_eq_ok.mp h
  have hread₁ := reads hworks (f := generationOf) hgeneration
  have hread₂ := reads hworks (f := stringOf) hfingerprint
  have hread₃ := reads hworks (f := stringOf) hkey
  exact ⟨_, hread₁.action_bind (hread₂.action_bind (hread₃.action_bind (Exec.finished _ w)))⟩

include hworks in
theorem writes (w : W) (file : StateFile) (contents : Bytes) :
    Exec env (secureWrite file contents modePublic).run w
      [writeEvent w (put w file contents) file contents (.ok ())] (some (.ok ()))
      (put w file contents) :=
  Exec.step (hworks.write w file contents modePublic) (Exec.finished _ _)

include hworks in
theorem tells (w : W) : Exec env clockNow.run w [⟨w, .now, now, w⟩] (some (.ok now)) w :=
  Exec.step (hworks.clock w) (Exec.finished _ w)

include hworks hcapable in
theorem signs (w : W) (method path : Text) (body : Bytes) :
    ∃ trace signed, Exec env (s.sign method path body).run w trace (some (.ok signed)) w := by
  let nonce := hexEncode (Vector.replicate 16 (0 : UInt8)).toList
  have hnonce : Exec env generateNonce.run w [⟨w, .randomBytes, Vector.replicate 16 0, w⟩]
      (some (.ok nonce)) w := Exec.step (hworks.random w) (Exec.finished _ w)
  obtain ⟨signature, hsignature⟩ := hcapable.sign (encodeUtf8 (canonicalString s.machineId
    (unixTimestamp now) nonce method path (bodySha256Hex s.client body)))
  have hsigned : signRequest s.client s.machineId (unixTimestamp now) nonce method path body =
      .ok ⟨s.machineId, unixTimestamp now, nonce, s.client.base64Encode signature.toList⟩ := by
    simp only [signRequest, hsignature]
  exact ⟨_, _, (tells hworks w).action_bind (hnonce.action_bind (finishes w hsigned))⟩

include hworks hcapable in
theorem stamps (w : W) (file : StateFile) :
    ∃ trace, Exec env (s.writeTimestamp file).run w trace (some (.ok ()))
      (put w file (storedLine stamp)) := by
  have hstamp : okOr (s.client.formatRfc3339 now) Error.machineRecordInvalid = .ok stamp := by
    rw [hcapable.stamp, okOr]
  exact ⟨_, (tells hworks w).action_bind
    ((finishes w hstamp).action_bind (writes hworks w file (storedLine stamp)))⟩

include hworks hcapable in
theorem fetches {w : W} {fingerprint : Option Text} {response : HttpResponse}
    (hget : ∀ signed, env w (.get (s.bundleRequest signed fingerprint)) (.ok response) w) :
    ∃ trace signed, Exec env (s.fetchBundle fingerprint).run w
      (trace ++ [getEvent w w (s.bundleRequest signed fingerprint) (.ok response)])
      (some (.ok response)) w := by
  obtain ⟨trace, signed, hsign⟩ := signs hworks hcapable w (text "GET") caBundlePath []
  exact ⟨trace, signed, hsign.action_bind (Exec.step (hget signed) (Exec.finished _ w))⟩

/-- The response carries a bundle that validation accepts and that differs from the records. -/
structure Novel (s : CaSyncService) (persisted : PersistedState) (now : Time)
    (response : HttpResponse) (bundle : CaBundle) : Prop where
  status : response.status = 200
  accepted : ∃ raw, s.client.bundleFromJson response.body = some raw ∧
    fromResponse s.client.toCrypto raw now (s.expectedSigningKey persisted) = .ok bundle
  ahead : CaSyncService.regressed persisted bundle = false
  differs : ¬ (persisted.generation = some bundle.generation ∧
    persisted.fingerprint = some bundle.fingerprint)

include hworks in
theorem decides {v : W} {persisted : PersistedState} {response : HttpResponse} {bundle : CaBundle}
    (h : Novel s persisted now response bundle) :
    ∃ trace, Judged s trace response (s.expectedSigningKey persisted) bundle ∧
      Exec env (decideOn s persisted response).run v trace (some (.ok (.apply bundle))) v := by
  obtain ⟨raw, hraw, hbundle⟩ := h.accepted
  have hjson : fromJson s.client response.body = .ok raw := by rw [fromJson, hraw]
  unfold decideOn
  rw [if_neg (by rw [h.status]; decide), if_neg (by rw [h.status]; decide)]
  have hnew : Exec env (if CaSyncService.regressed persisted bundle then
        throw (.invalidCaBundle .generationRegressed)
      else if persisted.generation = some bundle.generation ∧
          persisted.fingerprint = some bundle.fingerprint then
        pure (.unchanged bundle)
      else pure (.apply bundle) : SyncAction Decision).run v [] (some (.ok (.apply bundle))) v := by
    rw [if_neg (by rw [h.ahead]; decide), if_neg h.differs]
    exact Exec.finished _ v
  have hsuccess : isSuccess response.status = true := by
    rw [h.status]
    decide
  exact ⟨_, ⟨[], v, now, v, rfl, hsuccess, raw, hraw, hbundle⟩, (finishes v hjson).action_bind
    ((tells hworks v).action_bind ((finishes v (mapError_eq_ok.mpr hbundle)).action_bind hnew))⟩

include hworks hcapable in
theorem surveys {w : W} {persisted : PersistedState} {response : HttpResponse} {bundle : CaBundle}
    (hload : (dir w).load = .ok persisted)
    (hget : ∀ signed, env w (.get (s.bundleRequest signed persisted.fingerprint)) (.ok response) w)
    (h : Novel s persisted now response bundle) :
    ∃ head, Offered s head (s.expectedSigningKey persisted) bundle ∧
      Exec env (survey s).run w head (some (.ok (persisted, .apply bundle)))
        (put w .lastSync (storedLine stamp)) := by
  obtain ⟨t₁, hloads⟩ := loads hworks hload
  obtain ⟨t₂, signed, hfetches⟩ := fetches hworks hcapable hget
  obtain ⟨t₃, hstamps⟩ := stamps hworks hcapable w .lastSync
  obtain ⟨t₄, hjudged, hdecides⟩ := decides hworks h
  let fetched := t₂ ++ [getEvent w w (s.bundleRequest signed persisted.fingerprint) (.ok response)]
  have hfetched : getEvent w w (s.bundleRequest signed persisted.fingerprint) (.ok response) ∈
      t₁ ++ (fetched ++ (t₃ ++ t₄)) := by simp [fetched]
  refine ⟨t₁ ++ (fetched ++ (t₃ ++ t₄)), offered_of_judged s hfetched ?_, ?_⟩
  · have hprepended := hjudged.prepend s (t₁ ++ (fetched ++ t₃))
    simpa only [List.append_assoc] using hprepended
  · have hdone : Exec env (pure (persisted, Decision.apply bundle) : SyncAction _).run
        (put w .lastSync (storedLine stamp)) [] (some (.ok (persisted, .apply bundle))) _ :=
      Exec.finished _ _
    have hlast := Exec.action_bind
      (f := fun decision => (pure (persisted, decision) : SyncAction _)) hdecides hdone
    rw [List.append_nil] at hlast
    exact hloads.action_bind (hfetches.action_bind (hstamps.action_bind hlast))

include hworks hcapable in
/-- A new bundle is handed to the helper, and the pass may go on in any way. -/
theorem applies {w : W} {persisted : PersistedState} {response : HttpResponse} {bundle : CaBundle}
    (hload : (dir w).load = .ok persisted)
    (hget : ∀ signed, env w (.get (s.bundleRequest signed persisted.fingerprint)) (.ok response) w)
    (h : Novel s persisted now response bundle)
    (hparse : ∃ keys, TrustedCaKeys.parse (renderTrustedUserCaKeys bundle) = .ok keys) :
    let v := put w .lastSync (storedLine stamp)
    let v' := obey v (renderTrustedUserCaKeys bundle)
    ∃ head, Offered s head (s.expectedSigningKey persisted) bundle ∧
      ∀ rest result w', Exec env (conclude s bundle).run v' rest result w' →
        Exec env s.synchronize.run w
          (head ++ applyEvent v v' (renderTrustedUserCaKeys bundle) (.ok .applied) :: rest)
          result w' := by
  intro v v'
  obtain ⟨keys, hkeys⟩ := hparse
  obtain ⟨head, hoffered, hsurvey⟩ := surveys hworks hcapable hload hget h
  refine ⟨head, hoffered, fun rest result w' hrest => ?_⟩
  rw [synchronize_eq]
  refine hsurvey.action_bind ?_
  have happly : Exec env (CaSyncService.apply bundle).run v
      [applyEvent v v' (renderTrustedUserCaKeys bundle) (.ok .applied)]
      (some (.ok .applied)) v' :=
    (finishes v hkeys).action_bind (Exec.step (hworks.apply v _) (Exec.finished _ v'))
  exact happly.action_bind hrest

include hworks hcapable in
theorem acknowledges (w : W) (report : AckReport) :
    ∃ trace acknowledged, Exec env (s.acknowledge report).run w trace
      (some (.ok acknowledged)) w := by
  obtain ⟨body, hbody⟩ := hcapable.json report
  obtain ⟨trace, signed, hsign⟩ := signs hworks hcapable w (text "POST") caBundleAckPath body
  have hjson : okOr (s.client.ackToJson report) Error.requestSigning = .ok body := by
    rw [hbody, okOr]
  have htry : Exec env (s.tryAcknowledge report).run w _ (some (.ok ())) w :=
    (finishes w hjson).action_bind (hsign.action_bind
      (Exec.step (hworks.post w _) (finishes w rfl)))
  exact ⟨_, _, Exec.action_bind (htry.bind (Exec.finished _ w)) (Exec.finished _ w)⟩

include hworks in
theorem pins {w : W} {bundle : CaBundle} (hnone : s.pinnedSigningKey = none)
    (hmissing : dir w .signingKey = .missing) :
    Exec env (s.persistPinIfNeeded bundle).run w
      [⟨w, .read .signingKey, .error .notFound, w⟩,
        writeEvent w (put w .signingKey (storedLine bundle.signingPublicKey)) .signingKey
          (storedLine bundle.signingPublicKey) (.ok ())]
      (some (.ok ())) (put w .signingKey (storedLine bundle.signingPublicKey)) := by
  have hread : env w (.read .signingKey) (Except.error ReadError.notFound) w := by
    have := hworks.read w .signingKey
    rwa [hmissing] at this
  unfold CaSyncService.persistPinIfNeeded
  rw [hnone]
  exact Exec.step hread (writes hworks w .signingKey (storedLine bundle.signingPublicKey))

include hworks hcapable in
/-- After the confirmation every file is written. -/
theorem concludes {w : W} (bundle : CaBundle) (hnone : s.pinnedSigningKey = none)
    (hmissing : dir w .signingKey = .missing) :
    let w₁ := put w .generation (recordLine bundle .generation)
    let w₂ := put w₁ .fingerprint (recordLine bundle .fingerprint)
    let w₃ := put w₂ .signingKey (storedLine bundle.signingPublicKey)
    ∃ trace acknowledged,
      writeEvent w w₁ .generation (recordLine bundle .generation) (.ok ()) ∈ trace ∧
      writeEvent w₂ w₃ .signingKey (storedLine bundle.signingPublicKey) (.ok ()) ∈ trace ∧
      Exec env (conclude s bundle).run w trace
        (some (.ok (.updated bundle.generation bundle.fingerprint acknowledged)))
        (put w₃ .lastSuccess (storedLine stamp)) := by
  intro w₁ w₂ w₃
  have hmissing₂ : dir w₂ .signingKey = .missing := by
    rw [hworks.dir_put, install_other _ _ (by decide), hworks.dir_put,
      install_other _ _ (by decide), hmissing]
  obtain ⟨t, hstamps⟩ := stamps hworks hcapable w₃ .lastSuccess
  obtain ⟨t', acknowledged, hacknowledges⟩ := acknowledges hworks hcapable
    (put w₃ .lastSuccess (storedLine stamp)) (CaSyncService.appliedReport bundle)
  have hstore : Exec env (s.persistAfterApply bundle).run w _ (some (.ok ()))
      (put w₃ .lastSuccess (storedLine stamp)) :=
    (writes hworks w .generation (recordLine bundle .generation)).action_bind
      ((writes hworks w₁ .fingerprint (recordLine bundle .fingerprint)).action_bind
        ((pins hworks hnone hmissing₂).action_bind hstamps))
  refine ⟨_, acknowledged, ?_, ?_, hstore.action_bind (hacknowledges.action_bind
    (Exec.finished _ _))⟩
  · simp [w₁]
  · simp [w₃]

end Progress

def jsonField (name : String) (value : Text) : Text :=
  '"' :: (text name ++ text "\":\"" ++ jsonEscape value ++ ['"'])

/-- The envelope as the server serializes it. -/
def sampleBody (s : Sample) : Bytes := encodeUtf8 (
  text "\x7b\"bundle_version\":1,\"generation\":" ++ decimal s.generation.toNat ++ [','] ++
    jsonField "fingerprint" s.fingerprint ++ [','] ++
    jsonField "created_at" (text "2026-01-01T00:00:00Z") ++ [','] ++
    jsonField "expires_at" (text "2026-02-01T00:00:00Z") ++
    text ",\"keys\":" ++ appendKeysArray s.keys ++ [','] ++
    jsonField "signature_algorithm" (text "ssh-ed25519") ++ [','] ++
    jsonField "signature" s.signatureText ++ [','] ++
    jsonField "bundle_signing_public_key" s.signingKey ++ ['}'])

def sampleFromJson (body : Bytes) : Option CaBundleResponse :=
  (samples.find? fun s => body == sampleBody s).map Sample.response

def ackJson (report : AckReport) : Bytes := encodeUtf8 (
  text "\x7b\"generation\":" ++ decimal report.generation.toNat ++ [','] ++
    jsonField "fingerprint" report.fingerprint ++ [','] ++ jsonField "status" report.status ++
    (match report.reason with
      | some reason => ',' :: jsonField "reason" reason
      | none => []) ++ ['}'])

def sampleGet : Bytes := encodeUtf8 (canonicalString (text "machine-01") 1768435200
  (hexEncode (List.replicate 16 0)) (text "GET") caBundlePath
  (text "e3b0c44298fc1c149afbf4c8996fb92427ae41e4649b934ca495991b7852b855"))

def getSignature : Nat :=
  0x8aca146b44085ab90de9376cccd1bee6a607b7ea295d8ff81083f113cb466768 * 2 ^ 256 +
    0x8f0540e240fc3e0c0374193a5a42d5a9ea3d53c7ee710ed192e8322756a68007

def ackSignature : Nat :=
  0xb3e5747920f9b5cfcea1d7978f7fd80ede23e524bbd30455655eae2ec7eb5d84 * 2 ^ 256 +
    0x614b4923567b67dc9f5d421cd927375a42bbbc5bec863c8ad3e6897b339d2908

/-- It signs the two requests of a pass that applies the golden bundle. -/
def sampleClient : Client where
  toCrypto := sampleCrypto
  sign message := some (bigEndian 64 (if message = sampleGet then getSignature else ackSignature))
  base64Encode b :=
    sextets 86 (b.foldl (fun n byte => n * 256 + byte.toNat) 0 * 16) ++ text "=="
  formatRfc3339 t := if t = sampleNow then some (text "2026-01-15T00:00:00Z") else none
  bundleFromJson := sampleFromJson
  ackToJson report := some (ackJson report)

def sampleService (pin : Option Text) : CaSyncService where
  client := sampleClient
  machineId := text "machine-01"
  serverUrl := text "https://mayfly.example"
  pinnedSigningKey := pin

def sampleStamp : Bytes := storedLine (text "2026-01-15T00:00:00Z")

theorem sampleService_capable (pin : Option Text) :
    Capable (sampleService pin) sampleNow (text "2026-01-15T00:00:00Z") :=
  ⟨fun _ => ⟨_, rfl⟩, fun _ => ⟨_, rfl⟩, by simp only [sampleService, sampleClient, if_true]⟩

theorem sampleBody_golden : sampleFromJson (sampleBody golden) =
    some golden.response := by
  simp [sampleFromJson, samples]

theorem sampleBody_older : sampleFromJson (sampleBody older) =
    some older.response := by
  have hgolden : (sampleBody older == sampleBody golden) = false := by decide +kernel
  simp [sampleFromJson, samples, List.find?, hgolden]

theorem sampleBody_foreign : sampleFromJson (sampleBody foreign) =
    some foreign.response := by
  have hgolden : (sampleBody foreign == sampleBody golden) = false := by decide +kernel
  have holder : (sampleBody foreign == sampleBody older) = false := by decide +kernel
  simp [sampleFromJson, samples, List.find?, hgolden, holder]

/-- A sample that is accepted is new to an agent without records. -/
theorem sample_novel {pin : Option Text} {persisted : PersistedState} {sample : Sample}
    (hbody : sampleFromJson (sampleBody sample) = some sample.response)
    (hbundle : fromResponse sampleCrypto sample.response sampleNow
      ((sampleService pin).expectedSigningKey persisted) = .ok sample.bundle)
    (hnone : persisted.generation = none) :
    Novel (sampleService pin) persisted sampleNow ⟨200, sampleBody sample⟩ sample.bundle where
  status := rfl
  accepted := by
    refine ⟨sample.response, ?_, ?_⟩
    · simpa only [sampleService, sampleClient] using hbody
    · simpa only [sampleService, sampleClient] using hbundle
  ahead := by rw [CaSyncService.regressed, hnone]
  differs := by simp [hnone]

theorem sample_parses {pin : Option Text} {sample : Sample}
    (hbundle : fromResponse sampleCrypto sample.response sampleNow pin = .ok sample.bundle) :
    ∃ keys, TrustedCaKeys.parse (renderTrustedUserCaKeys sample.bundle) = .ok keys :=
  ⟨_, accepted_parses sampleCrypto_lines hbundle⟩

def unstored : PersistedState := { generation := none, fingerprint := none, signingKey := none }

theorem load_unstored {d : StateDir} (hgeneration : d .generation = .missing)
    (hfingerprint : d .fingerprint = .missing) (hkey : d .signingKey = .missing) :
    d.load = .ok unstored :=
  load_eq_ok.mpr ⟨readGeneration_missing hgeneration, readString_missing hfingerprint,
    readString_missing hkey⟩

section Samples

variable {env : Environment syncSignature W} {dir : W → StateDir}
variable {put : W → StateFile → Bytes → W} {obey : W → Text → W}

/-- The helper confirms the bundle right after the attempt was recorded. -/
def sampleApply (put : W → StateFile → Bytes → W) (obey : W → Text → W) (w : W)
    (sample : Sample) : SyncEvent W :=
  applyEvent (put w .lastSync sampleStamp)
    (obey (put w .lastSync sampleStamp) (renderTrustedUserCaKeys sample.bundle))
    (renderTrustedUserCaKeys sample.bundle) (.ok .applied)

/-- Without records, an offered sample is applied and the pass goes on anyhow. -/
theorem sample_applies (hworks : Working env dir sampleNow put obey) {pin : Option Text} {w : W}
    {sample : Sample} (hload : (dir w).load = .ok unstored)
    (hget : ∀ signed, env w (.get ((sampleService pin).bundleRequest signed none))
      (.ok ⟨200, sampleBody sample⟩) w)
    (hbody : sampleFromJson (sampleBody sample) = some sample.response)
    (hbundle : fromResponse sampleCrypto sample.response sampleNow pin = .ok sample.bundle) :
    ∃ head, (∀ rest, Applied (sampleService pin)
        (head ++ sampleApply put obey w sample :: rest) sample.bundle) ∧
      ∀ rest result w', Exec env (conclude (sampleService pin) sample.bundle).run
          (sampleApply put obey w sample).after rest result w' →
        Exec env (sampleService pin).synchronize.run w
          (head ++ sampleApply put obey w sample :: rest) result w' := by
  have hexpected : (sampleService pin).expectedSigningKey unstored = pin := by
    cases pin <;> rfl
  obtain ⟨head, hoffered, happlies⟩ :=
    applies hworks (sampleService_capable pin) hload hget
      (sample_novel hbody (by rw [hexpected]; exact hbundle) rfl) (sample_parses hbundle)
  refine ⟨head, fun rest => ⟨⟨_, hoffered.append _ _⟩, ?_⟩, happlies⟩
  exact ⟨_, _, List.mem_append_right head (List.mem_cons_self ..)⟩

/-- The first pass of an agent without a pin, with everything working. -/
theorem golden_pass (hworks : Working env dir sampleNow put obey) {w : W}
    (hload : (dir w).load = .ok unstored) (hmissing : dir w .signingKey = .missing)
    (hget : ∀ signed, env w (.get ((sampleService none).bundleRequest signed none))
      (.ok ⟨200, sampleBody golden⟩) w) :
    ∃ trace outcome w',
      Exec env (sampleService none).synchronize.run w trace (some (.ok outcome)) w' ∧
      Applied (sampleService none) trace golden.bundle ∧
      (∃ v v' answer, dir v' .generation = .regular (recordLine golden.bundle .generation) ∧
        writeEvent v v' .generation (recordLine golden.bundle .generation) answer ∈ trace) ∧
      ∃ v v' answer, dir v' .signingKey = .regular (storedLine golden.bundle.signingPublicKey) ∧
        writeEvent v v' .signingKey (storedLine golden.bundle.signingPublicKey) answer ∈ trace := by
  obtain ⟨head, happlied, happlies⟩ := sample_applies hworks hload hget sampleBody_golden
    (fromResponse_unpinned golden_accepted)
  have hmissing' : dir (sampleApply put obey w golden).after .signingKey = .missing := by
    simp only [sampleApply, applyEvent]
    rw [hworks.dir_obey, hworks.dir_put, install_other _ _ (by decide), hmissing]
  obtain ⟨rest, acknowledged, hgeneration, hpin, hconclude⟩ :=
    concludes hworks (sampleService_capable none) golden.bundle rfl hmissing'
  refine ⟨_, _, _, happlies _ _ _ hconclude, happlied rest, ?_, ?_⟩
  · refine ⟨_, _, _, ?_, List.mem_append_right _ (List.mem_cons_of_mem _ hgeneration)⟩
    rw [hworks.dir_put, install_same]
  · refine ⟨_, _, _, ?_, List.mem_append_right _ (List.mem_cons_of_mem _ hpin)⟩
    rw [hworks.dir_put, install_same]

end Samples

end MayflyAgent.SyncProgress
