import MayflyAgent.Configs
import MayflyAgent.ParsedUrls
import MayflyAgent.RequestSigning

/-!
The URL of a request and the path in its signature. A request goes to the path appended to the
server URL of the configuration, but only the appended path is signed. The two agree where the
parser of the HTTP client finds nothing but a slash behind the host of the configured URL; the
validation of the configuration also lets a path, a query or a fragment through, and a host that
is no more than slashes.
-/
namespace MayflyAgent.SignedUrls

open RustText Programs Contracts Checks Bundles CaSync Heartbeats Configs ParsedUrls RequestSigning

variable (parse : Text → Option ParsedUrl)

/-- The URL has the scheme and the host of the server, and a host, and this path. -/
def Agrees (serverUrl path url : Text) : Prop :=
  ∃ server u, parse serverUrl = some server ∧ parse url = some u ∧ u.scheme = server.scheme ∧
    u.host = server.host ∧ (∃ name, u.host = some name ∧ name ≠ []) ∧ u.path = path

/-- Every request is signed for its path, and goes to a URL with this path on the server. -/
structure RequestsAsSigned (serverUrl : Text) : Prop where
  heartbeats : ∀ (W : Type) (env : Environment daemonSignature W) (c : HeartbeatClient)
    (beat : HeartbeatRequest) (w w' : W) trace result, c.serverUrl = serverUrl →
    Exec env (c.sendHeartbeat beat).run w trace result w' → ∀ e ∈ trace,
      ∀ http ∈ daemonHttp e.op, SentSigned c.client serverUrl c.machineId (text "POST")
        heartbeatPath (heartbeatBody beat) http ∧ Agrees parse serverUrl heartbeatPath http.url
  fetches : ∀ (W : Type) (env : Environment syncSignature W) (s : CaSyncService)
    (fingerprint : Option Text) (w w' : W) trace result, s.serverUrl = serverUrl →
    Exec env (s.fetchBundle fingerprint).run w trace result w' → ∀ e ∈ trace,
      ∀ http ∈ syncHttp e.op, SentSigned s.client serverUrl s.machineId (text "GET")
        caBundlePath [] http ∧ Agrees parse serverUrl caBundlePath http.url
  acknowledgements : ∀ (W : Type) (env : Environment syncSignature W) (s : CaSyncService)
    (report : AckReport) (w w' : W) trace result, s.serverUrl = serverUrl →
    Exec env (s.tryAcknowledge report).run w trace result w' → ∀ e ∈ trace,
      ∀ http ∈ syncHttp e.op, (∃ body, SentSigned s.client serverUrl s.machineId (text "POST")
        caBundleAckPath body http) ∧ Agrees parse serverUrl caBundleAckPath http.url

/-- The server URL without its last slashes. -/
def base (serverUrl : Text) : Text := Words.trimEnd (fun c => c == '/') serverUrl

/-- With one slash at its end, all that the URL has behind its host is that slash. -/
def PlainBase (serverUrl : Text) : Prop :=
  ∃ u, parse (base serverUrl ++ ['/']) = some u ∧ u.path = ['/'] ∧ u.EndsWithPath

/-- An accepted server URL, by its scheme. -/
theorem accepted_base {config : Config} (h : config.validateServerUrl = .ok ()) :
    ∃ scheme rest, (scheme = text "https" ∨ scheme = text "http") ∧
      config.serverUrl = scheme ++ ':' :: '/' :: '/' :: rest := by
  have hhttps : text "https://" = text "https" ++ [':', '/', '/'] := by simp [text]
  have hhttp : text "http://" = text "http" ++ [':', '/', '/'] := by simp [text]
  obtain ⟨_, rest, _, hurl | ⟨hurl, _⟩⟩ := accepted_url h
  · refine ⟨text "https", rest, Or.inl rfl, ?_⟩
    rw [hurl, hhttps, List.append_assoc]
    rfl
  · refine ⟨text "http", rest, Or.inr rfl, ?_⟩
    rw [hurl, hhttp, List.append_assoc]
    rfl

/-- Trimming a list that goes on from another one reaches into that one only when nothing else is
left. -/
theorem trimEnd_append_list {α : Type} {sep : α → Bool} (l r : List α) :
    Words.trimEnd sep (l ++ r) =
      if Words.trimEnd sep r = [] then Words.trimEnd sep l else l ++ Words.trimEnd sep r := by
  simp only [Words.trimEnd, List.rdropWhile, List.reverse_append, List.dropWhile_append,
    List.reverse_eq_nil_iff, List.isEmpty_iff]
  split <;> simp

/-- The slashes at the end never reach the colon behind the scheme. -/
theorem base_http {config : Config} (h : config.validateServerUrl = .ok ()) :
    IsHttp (base config.serverUrl) := by
  obtain ⟨scheme, rest, hscheme, hserver⟩ := accepted_base h
  have hsplit : config.serverUrl = (scheme ++ [':']) ++ '/' :: '/' :: rest := by simp [hserver]
  have hcolon : Words.trimEnd (fun c => c == '/') (scheme ++ [':']) = scheme ++ [':'] := by
    rw [trimEnd_append_list, if_neg (by decide)]
    rfl
  obtain ⟨more, hmore⟩ : ∃ more, base config.serverUrl = scheme ++ ':' :: more := by
    rw [base, hsplit, trimEnd_append_list, hcolon]
    split
    · exact ⟨[], rfl⟩
    · exact ⟨_, by rw [List.append_assoc]; rfl⟩
  refine ⟨more, ?_⟩
  rcases hscheme with rfl | rfl
  · exact Or.inl (hmore.trans (by simp [text]))
  · exact Or.inr (hmore.trans (by simp [text]))

/-- A path that a request may be signed for. -/
structure SignedPath (path : Text) : Prop where
  starts : ∃ rest, path = '/' :: rest
  plain : ∀ c ∈ path, isPlain c = true

theorem heartbeatPath_signed : SignedPath heartbeatPath :=
  ⟨⟨text "api/v1/agent/heartbeat", by simp [heartbeatPath, text]⟩,
    fun c hc => List.all_eq_true.mp (by decide +kernel) c hc⟩

theorem caBundlePath_signed : SignedPath caBundlePath :=
  ⟨⟨text "api/v1/agent/ca-bundle", by simp [caBundlePath, text]⟩,
    fun c hc => List.all_eq_true.mp (by decide +kernel) c hc⟩

theorem caBundleAckPath_signed : SignedPath caBundleAckPath :=
  ⟨⟨text "api/v1/agent/ca-bundle/ack", by simp [caBundleAckPath, text]⟩,
    fun c hc => List.all_eq_true.mp (by decide +kernel) c hc⟩

section Joined

variable {parse} {serverUrl path : Text} (hparse : ReadsUrls parse)
include hparse

theorem agrees_of_plain (hhttp : IsHttp (base serverUrl)) (h : PlainBase parse serverUrl)
    (hpath : SignedPath path) : Agrees parse serverUrl path (joinUrl serverUrl path) := by
  obtain ⟨u, hu, hroot, hend⟩ := h
  obtain ⟨rest, rfl⟩ := hpath.starts
  have hrest : ∀ c ∈ rest, isPlain c = true := fun c hc => hpath.plain c (List.mem_cons_of_mem _ hc)
  have hurl : parse (joinUrl serverUrl ('/' :: rest)) = some (u.extend rest) :=
    hparse.append _ _ _ hhttp hrest hu
  have hserver : ∃ server, parse serverUrl = some server ∧ server.scheme = u.scheme ∧
      server.host = u.host := by
    obtain ⟨gap, hgap, hslashes⟩ := Words.trimEnd_append (fun c => c == '/') serverUrl
    change serverUrl = base serverUrl ++ gap at hgap
    cases gap with
    | nil =>
      obtain ⟨server, hserver, hsame⟩ := hparse.slash _ _ hhttp hu
      rw [← List.append_nil (base serverUrl), ← hgap] at hserver
      exact ⟨server, hserver, hsame⟩
    | cons c gap =>
      obtain rfl : c = '/' := beq_iff_eq.mp (hslashes c (List.mem_cons_self ..))
      have hplain : ∀ c ∈ gap, isPlain c = true := by
        intro c hc
        obtain rfl := beq_iff_eq.mp (hslashes c (List.mem_cons_of_mem _ hc))
        rfl
      have hserver := hparse.append _ _ _ hhttp hplain hu
      rw [← hgap] at hserver
      exact ⟨_, hserver, extend_scheme .., extend_host ..⟩
  obtain ⟨server, hserver, hscheme, hhost⟩ := hserver
  obtain ⟨name, hname, hne⟩ := hparse.host _ _ (hhttp.append _) hu
  refine ⟨server, u.extend rest, hserver, hurl, ?_, ?_, ⟨name, ?_, hne⟩, ?_⟩
  · rw [extend_scheme, hscheme]
  · rw [extend_host, hhost]
  · rw [extend_host, hname]
  · rw [extend_path rest hend, hroot]
    rfl

/-- A URL that has more behind its host does not agree with two paths. -/
theorem plain_of_agrees (hhttp : IsHttp (base serverUrl)) {path' : Text}
    (hpath : SignedPath path) (hpath' : SignedPath path') (hpaths : path ≠ path')
    (h : Agrees parse serverUrl path (joinUrl serverUrl path))
    (h' : Agrees parse serverUrl path' (joinUrl serverUrl path')) : PlainBase parse serverUrl := by
  obtain ⟨rest, rfl⟩ := hpath.starts
  obtain ⟨rest', rfl⟩ := hpath'.starts
  have hrest : ∀ c ∈ rest, isPlain c = true := fun c hc => hpath.plain c (List.mem_cons_of_mem _ hc)
  have hrest' : ∀ c ∈ rest', isPlain c = true :=
    fun c hc => hpath'.plain c (List.mem_cons_of_mem _ hc)
  obtain ⟨_, v, _, hv, _, _, _, hvpath⟩ := h
  obtain ⟨_, v', _, hv', _, _, _, hvpath'⟩ := h'
  obtain ⟨u, hu⟩ := hparse.cut _ _ _ hhttp hrest hv (by rw [hvpath]; exact Nat.lt_succ_self _)
  obtain rfl : v = u.extend rest :=
    Option.some.inj (hv.symm.trans (hparse.append _ _ _ hhttp hrest hu))
  obtain rfl : v' = u.extend rest' :=
    Option.some.inj (hv'.symm.trans (hparse.append _ _ _ hhttp hrest' hu))
  by_cases hend : u.EndsWithPath
  · rw [extend_path rest hend] at hvpath
    have hroot : u.path ++ rest = ['/'] ++ rest := hvpath
    exact ⟨u, hu, List.append_cancel_right hroot, hend⟩
  · rw [extend_same_path rest hend] at hvpath
    rw [extend_same_path rest' hend] at hvpath'
    exact absurd (hvpath.symm.trans hvpath') hpaths

end Joined

/-- A sample service for this server. -/
def serviceFor (serverUrl : Text) : CaSyncService :=
  { SyncProgress.sampleService none with serverUrl := serverUrl }

def clientFor (serverUrl : Text) : HeartbeatClient :=
  { PollingRuns.sampleDaemon.heartbeat with serverUrl := serverUrl }

theorem exec_answered {S : Signature} {β : Type} (op : S.Op) (answer : S.Answer op)
    {next : S.Answer op → Program S β} {trace : List (Event S Unit)} {result : Option β}
    (h : Exec (fun _ _ _ _ => True) (next answer) () trace result ()) :
    Exec (fun _ _ _ _ => True) (.call op next) () (⟨(), op, answer, ()⟩ :: trace) result () :=
  Exec.step trivial h

theorem fetch_sends (serverUrl : Text) : ∃ trace result,
    Exec (fun _ _ _ _ => True) ((serviceFor serverUrl).fetchBundle none).run () trace result () ∧
      ∃ e ∈ trace, ∃ http, http ∈ syncHttp e.op := by
  have hexec : Exec (fun _ _ _ _ => True) ((serviceFor serverUrl).fetchBundle none).run () _ none
      () :=
    exec_answered (S := syncSignature) .now (0 : Time) (exec_answered (S := syncSignature)
      .randomBytes (Vector.replicate 16 0) (exec_answered (S := syncSignature) (.get _)
        (.error .caBundleTransport : Except Errors.Error HttpResponse) (Exec.killed _ _)))
  refine ⟨_, _, hexec, _, List.mem_cons_of_mem _ (List.mem_cons_of_mem _ (List.mem_cons_self ..)),
    _, rfl⟩

theorem heartbeat_sends (serverUrl : Text) : ∃ trace result,
    Exec (fun _ _ _ _ => True) ((clientFor serverUrl).sendHeartbeat (PollingRuns.sampleBeat 0)).run
      () trace result () ∧ ∃ e ∈ trace, ∃ http, http ∈ daemonHttp e.op := by
  have hexec : Exec (fun _ _ _ _ => True)
      ((clientFor serverUrl).sendHeartbeat (PollingRuns.sampleBeat 0)).run () _ none () :=
    exec_answered (S := daemonSignature) (.inl .now) (0 : Time) (exec_answered
      (S := daemonSignature) (.inl .randomBytes) (Vector.replicate 16 0 : Vector UInt8 16)
        (exec_answered (S := daemonSignature) (.inr (.heartbeatPost _))
          (.error .heartbeatTransport : Except Errors.Error HttpResponse) (Exec.killed _ _)))
  refine ⟨_, _, hexec, _, List.mem_cons_of_mem _ (List.mem_cons_of_mem _ (List.mem_cons_self ..)),
    _, rfl⟩

section Requests

variable {parse : Text → Option ParsedUrl} {serverUrl : Text}

/-- Two of the requests already show what the URLs are made of. -/
theorem RequestsAsSigned.agrees (h : RequestsAsSigned parse serverUrl) :
    Agrees parse serverUrl heartbeatPath (joinUrl serverUrl heartbeatPath) ∧
      Agrees parse serverUrl caBundlePath (joinUrl serverUrl caBundlePath) := by
  constructor
  · obtain ⟨trace, result, hexec, e, he, http, hhttp⟩ := heartbeat_sends serverUrl
    obtain ⟨hsent, hagrees⟩ := h.heartbeats _ _ _ _ _ _ _ _ rfl hexec e he http hhttp
    exact hsent.url ▸ hagrees
  · obtain ⟨trace, result, hexec, e, he, http, hhttp⟩ := fetch_sends serverUrl
    obtain ⟨hsent, hagrees⟩ := h.fetches _ _ _ _ _ _ _ _ rfl hexec e he http hhttp
    exact hsent.url ▸ hagrees

theorem requestsAsSigned_of_plain (hparse : ReadsUrls parse) (hhttp : IsHttp (base serverUrl))
    (h : PlainBase parse serverUrl) : RequestsAsSigned parse serverUrl where
  heartbeats := by
    rintro W env c beat w w' trace result rfl hexec e he http hsends
    have hsent := sends_of_meets (meets_sendHeartbeat c env beat) hexec e he http hsends
    exact ⟨hsent, hsent.url ▸ agrees_of_plain hparse hhttp h heartbeatPath_signed⟩
  fetches := by
    rintro W env s fingerprint w w' trace result rfl hexec e he http hsends
    have hsent := sends_of_meets (meets_fetchBundle s env fingerprint) hexec e he http hsends
    exact ⟨hsent, hsent.url ▸ agrees_of_plain hparse hhttp h caBundlePath_signed⟩
  acknowledgements := by
    rintro W env s report w w' trace result rfl hexec e he http hsends
    obtain ⟨body, _, hsent⟩ :=
      sends_of_meets (meets_tryAcknowledge s env report) hexec e he http hsends
    exact ⟨⟨body, hsent⟩, hsent.url ▸ agrees_of_plain hparse hhttp h caBundleAckPath_signed⟩

/-- The requests to a server of an accepted configuration go where they are signed for, just when
the configured URL has nothing behind its host but slashes. -/
theorem requests_as_signed_iff {ext : Crypto} {config : Config} (hparse : ReadsUrls parse)
    (hvalid : config.validate ext = .ok ()) :
    RequestsAsSigned parse config.serverUrl ↔ PlainBase parse config.serverUrl := by
  have hhttp := base_http (validateServerUrl_of_validate hvalid)
  refine ⟨fun h => ?_, requestsAsSigned_of_plain hparse hhttp⟩
  obtain ⟨hheartbeat, hfetch⟩ := h.agrees
  have hpaths : heartbeatPath ≠ caBundlePath := by simp [heartbeatPath, caBundlePath, text]
  exact plain_of_agrees hparse hhttp heartbeatPath_signed caBundlePath_signed hpaths hheartbeat
    hfetch

end Requests

def configFor (serverUrl : Text) : Config where
  serverUrl := serverUrl
  machineId := text "host-01"
  heartbeatInterval := 60 * 1000000000
  syncInterval := 300 * 1000000000
  trustedCaPath := text "/etc/ssh/mayfly/trusted_user_ca_keys"
  sshdConfigPath := text "/etc/ssh/sshd_config.d/mayfly.conf"
  stateDir := text "/var/lib/mayfly"
  identityDir := text "/etc/mayfly-agent"
  helperSocketPath := text "/run/mayfly/helper.sock"
  helperTokenPath := text "/etc/mayfly-agent/helper.token"
  bundleSigningPublicKey := none
  pollJitterRatio := some (1 / 10)
  allowInsecureTls := false
  tlsCaPath := none

/-- A URL with slashes at its end. -/
def plainUrl : Text := text "https://mayfly.example:8443//"

theorem requests_as_signed_iff_sample : RequestsAsSigned sampleParse plainUrl := by
  have hvalid : (configFor plainUrl).validate BundleValidation.sampleCrypto = .ok () := by
    decide +kernel
  have hparsed : sampleParse (base plainUrl ++ ['/']) =
      some (sampleUrl (text "mayfly.example:8443/")) := by decide +kernel
  exact (requests_as_signed_iff sampleParse_reads hvalid).mpr
    ⟨_, hparsed, by decide +kernel, rfl, rfl⟩

/-- A server behind a path of its host. -/
def prefixedUrl : Text := text "https://mayfly.example/mayfly"

theorem prefixed_signed_otherwise : ¬ ∀ (ext : Crypto) (config : Config),
    config.validate ext = .ok () → RequestsAsSigned sampleParse config.serverUrl := by
  intro h
  have hvalid : (configFor prefixedUrl).validate BundleValidation.sampleCrypto = .ok () := by
    decide +kernel
  obtain ⟨_, u, _, hu, _, _, _, hpath⟩ := (h _ _ hvalid).agrees.1
  have hparsed : sampleParse (joinUrl prefixedUrl heartbeatPath) =
      some (sampleUrl (text "mayfly.example/mayfly/api/v1/agent/heartbeat")) := by decide +kernel
  obtain rfl := Option.some.inj (hu.symm.trans hparsed)
  exact absurd hpath (by decide +kernel)

end MayflyAgent.SignedUrls
