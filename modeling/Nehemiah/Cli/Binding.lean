import Nehemiah.Lib.Run

/-!
# Where the CLI sends a stored credential

`clientOptions`, `requireCredentialBinding` and the commands of `index.ts` that take a credential from the configuration or
the credential store.  One call is followed; other processes change the configuration and the store between any two of its
reads.  A command reads the configuration once for the address, and once more under the lock for the binding.

What is sent stays with its origin in every run in which the two readings select one origin, and in which the store holds
what the configuration says it does (`credential_stays`); it does not in general (`relogin_leaks`).
-/

namespace Nehemiah.Cli

open Lib

/-! ### Origins -/

/-- What `new URL` makes of a text. -/
structure ParsedUrl where
  protocol : String
  username : String
  password : String
  hostname : String
  pathname : String
  search : String
  hash : String
  origin : String

/-- `new URL`, `none` where it throws. -/
abbrev UrlParser := String → Option ParsedUrl

def cloudBaseUrl : String := "https://api.boringcomputers.com"

def localBaseUrl : String := "http://localhost:8080"

def loopbackHostnames : List String := ["localhost", "127.0.0.1", "[::1]"]

def ParsedUrl.safeProtocol (url : ParsedUrl) : Bool :=
  decide (url.protocol = "https:") || (decide (url.protocol = "http:") && loopbackHostnames.contains url.hostname)

def canonicalCredentialOrigin (parse : UrlParser) (baseUrl : String) : Option String :=
  match parse baseUrl with
  | none => none
  | some url =>
    if !url.safeProtocol ∨ url.username ≠ "" ∨ url.password ≠ "" ∨ url.pathname ≠ "/" ∨ url.search ≠ "" ∨ url.hash ≠ ""
        ∨ url.origin = "null" then none
    else some url.origin

/-! ### Configuration -/

inductive AuthMode
  | apiKey
  | device
deriving DecidableEq

inductive TargetMode
  | localHost
  | selfHosted
  | cloud
deriving DecidableEq

def TargetMode.text : TargetMode → String
  | .localHost => "local"
  | .selfHosted => "self-hosted"
  | .cloud => "cloud"

/-- `validTarget`. -/
def TargetMode.ofText? (value : String) : Option TargetMode :=
  [TargetMode.localHost, .selfHosted, .cloud].find? fun target => target.text = value

structure CliConfig where
  apiKey : Option String := none
  authMode : Option AuthMode := none
  credentialAccount : Option String := none
  credentialOrigin : Option String := none
  project : Option String := none
  region : Option String := none
  baseUrl : Option String := none
  target : Option TargetMode := none

/-- The flags and the environment of a call. -/
structure Invocation where
  urlFlag : Option String := none
  targetFlag : Option String := none
  projectFlag : Option String := none
  regionFlag : Option String := none
  envUrl : Option String := none
  envTarget : Option String := none
  envApiKey : Option String := none
  envProject : Option String := none
  envRegion : Option String := none

structure ClientOptions where
  target : TargetMode
  baseUrl : Option String
  apiKey : Option String
  project : Option String
  region : Option String

/-- A text that JavaScript takes for true. -/
def truthy (value : Option String) : Option String := value.filter fun text => text ≠ ""

variable (parse : UrlParser) (call : Invocation)

def storedCredential (config : CliConfig) : Option String :=
  if config.authMode = some .device then none else config.apiKey

def storedCredentialIsBound (config : CliConfig) : Bool :=
  let selected := canonicalCredentialOrigin parse ((call.urlFlag <|> call.envUrl <|> config.baseUrl).getD cloudBaseUrl)
  let configured := canonicalCredentialOrigin parse (config.baseUrl.getD cloudBaseUrl)
  (storedCredential config).isSome && config.credentialOrigin.isSome && decide (selected = config.credentialOrigin)
    && decide (configured = config.credentialOrigin)

def clientOptions (config : CliConfig) : ClientOptions :=
  let baseUrl := call.urlFlag <|> call.envUrl <|> config.baseUrl
  let bound := storedCredentialIsBound parse call config
  let cloudCredential := call.envApiKey <|> if bound then storedCredential config else none
  let cloudProject := call.projectFlag <|> call.envProject <|> config.project
  let targetValue := call.targetFlag <|> call.envTarget <|> config.target.map TargetMode.text
  { target := (targetValue.bind TargetMode.ofText?).getD
      (if (truthy cloudCredential).isSome ∨ (truthy cloudProject).isSome then .cloud
        else if baseUrl.isSome ∧ baseUrl ≠ some cloudBaseUrl then .selfHosted else .cloud)
    baseUrl := baseUrl <|>
      if call.envApiKey = none ∧ bound = true then some (config.baseUrl.getD cloudBaseUrl) else none
    apiKey := truthy cloudCredential
    project := truthy cloudProject
    region := truthy (call.regionFlag <|> call.envRegion <|> config.region) }

/-- The address that the SDK takes for its options. -/
def ClientOptions.sdkBaseUrl (options : ClientOptions) : String :=
  options.baseUrl.getD (if options.target = .cloud then cloudBaseUrl else localBaseUrl)

def selectedBaseUrl (config : CliConfig) : String :=
  (call.urlFlag <|> call.envUrl <|> config.baseUrl).getD cloudBaseUrl

/-! ### Binding -/

inductive CredentialOriginError
  | unsafeCredentialOrigin
  | credentialOriginRequired
  | credentialOriginMismatch

/-- What a credential is bound to, with the configuration, to which the default origin may have been added. -/
structure Binding where
  config : CliConfig
  credentialOrigin : String
  boundBaseUrl : String

/-- The comparison at the end of `requireCredentialBinding`. -/
def boundTo (config : CliConfig) (credentialOrigin selectedOrigin : String) : Except CredentialOriginError Binding :=
  let boundBaseUrl := config.baseUrl.getD cloudBaseUrl
  if canonicalCredentialOrigin parse boundBaseUrl ≠ some credentialOrigin ∨ selectedOrigin ≠ credentialOrigin then
    .error .credentialOriginMismatch
  else .ok ⟨config, credentialOrigin, boundBaseUrl⟩

def requireCredentialBinding (device : Bool) (config : CliConfig) (selectedBaseUrl : String) :
    Except CredentialOriginError Binding :=
  match canonicalCredentialOrigin parse selectedBaseUrl, canonicalCredentialOrigin parse cloudBaseUrl with
  | some selectedOrigin, some defaultOrigin =>
    match config.credentialOrigin with
    | some credentialOrigin => boundTo parse config credentialOrigin selectedOrigin
    | none =>
      if device ∧ config.baseUrl = none ∧ selectedOrigin = defaultOrigin then
        boundTo parse { config with credentialOrigin := some defaultOrigin } defaultOrigin selectedOrigin
      else .error .credentialOriginRequired
  | _, _ => .error .unsafeCredentialOrigin

/-! ### Credentials -/

structure StoredDeviceSession where
  account : String
  origin : String
  refreshToken : String
  refreshExpiresAt : ℤ
  accessToken : String
  accessExpiresAt : ℤ
  projectId : String

/-- What `decodeDeviceCredential` reads in the store.  A legacy entry does not say for which origin it was issued. -/
inductive Secret
  | legacy (refreshToken issuedFor : String)
  | session (session : StoredDeviceSession)
  | unreadable

/-- A token with the origin that it was issued for. -/
structure Credential where
  token : String
  issuedFor : String
deriving DecidableEq

def refreshFromStoredCredential : Secret → Option Credential
  | .legacy refreshToken issuedFor => some ⟨refreshToken, issuedFor⟩
  | .session session => some ⟨session.refreshToken, session.origin⟩
  | .unreadable => none

structure DeviceToken where
  accessToken : String
  expiresIn : ℤ
  refreshToken : String
  refreshExpiresIn : ℤ
  projectId : String

def storedSessionFromToken (token : DeviceToken) (account origin : String) (now : ℤ) : StoredDeviceSession where
  account := account
  origin := origin
  refreshToken := token.refreshToken
  refreshExpiresAt := now + token.refreshExpiresIn * 1000
  accessToken := token.accessToken
  accessExpiresAt := now + token.expiresIn * 1000
  projectId := token.projectId

def accessTokenRefreshSkewMs : ℤ := 60000

/-- A credential and the address it went to. -/
structure Sent where
  credential : Credential
  url : String
deriving DecidableEq

/-- The address is of the origin that the credential was issued for. -/
def Sent.Home (x : Sent) : Prop := canonicalCredentialOrigin parse x.url = some x.credential.issuedFor

instance (x : Sent) : Decidable (x.Home parse) := inferInstanceAs (Decidable (_ = _))

/-! ### A call among other processes -/

/-- Where the call stands. -/
inductive CallPc
  | idle
  /-- `authenticatedClientOptions`, before the lock -/
  | locking (config : CliConfig) (account : String)
  /-- under the lock, before `store.get` -/
  | bound (config : CliConfig) (account : String) (binding : Binding)
  /-- the refresh token is on its way -/
  | refreshing (config : CliConfig) (account : String) (binding : Binding)
  /-- `runDeviceLogin`, until the login is approved -/
  | polling (config : CliConfig) (previousBaseUrl : Option String) (baseUrl credentialOrigin : String)
  /-- before `store.set` -/
  | storing (config : CliConfig) (baseUrl credentialOrigin : String) (session : StoredDeviceSession)
  /-- `runDeviceLogout`, before the lock -/
  | leaving (account : String)
  /-- under the lock, before `store.get` -/
  | unbinding (account : String) (binding : Binding)
  | done

structure Shell where
  file : CliConfig
  keyring : String → Option Secret
  pc : CallPc
  sent : List Sent

inductive CliAct
  /-- another process writes the configuration -/
  | rewrite (config : CliConfig)
  /-- another process writes or deletes an entry of the credential store -/
  | rekey (account : String) (secret : Option Secret)
  | authenticate
  | authLocked
  | authGet (now : ℤ)
  | authRefreshed (token : DeviceToken) (now : ℤ) (stored : Bool)
  | authRefused (dropped : Bool)
  | login
  | loginUnlocked (token : DeviceToken)
  | loginGranted (account : String) (token : DeviceToken) (now : ℤ) (revoked : Bool)
  | loginStored (stored written : Bool)
  | logout
  | logoutLocked
  | logoutGet (revoked : Bool)

namespace Shell

variable (s : Shell)

def stop : Shell := { s with pc := .done }

def send (token issuedFor url : String) : Shell := { s with sent := s.sent ++ [⟨⟨token, issuedFor⟩, url⟩] }

def setSecret (account : String) (secret : Option Secret) : Shell :=
  { s with keyring := Function.update s.keyring account secret }

/-- The saved API key goes to the SDK with the options that were made with it. -/
def sendApiKey (config : CliConfig) : Shell :=
  let options := clientOptions parse call config
  match options.apiKey with
  | some key => s.send key (config.credentialOrigin.getD "") options.sdkBaseUrl
  | none => s

/-- The access token goes to the SDK with the options of the first reading. -/
def sendAccess (config : CliConfig) (session : StoredDeviceSession) : Shell :=
  s.send session.accessToken session.origin
    { clientOptions parse call config with
      target := .cloud, apiKey := some session.accessToken, project := some session.projectId }.sdkBaseUrl

/-- The steps of `authenticatedClientOptions`. -/
def authStep : CliAct → Option Shell
  | .authenticate =>
    match s.pc with
    | .idle =>
      if (truthy call.envApiKey).isSome then some s.stop
      else if s.file.authMode ≠ some .device ∧ (truthy s.file.apiKey).isSome then
        match requireCredentialBinding parse false s.file (selectedBaseUrl call s.file) with
        | .error _ => some s.stop
        | .ok _ => some (s.sendApiKey parse call s.file).stop
      else
        match s.file.authMode, s.file.credentialAccount with
        | some .device, some account => some { s with pc := .locking s.file account }
        | _, _ => some s.stop
    | _ => none
  | .authLocked =>
    match s.pc with
    | .locking config account =>
      if s.file.authMode = some .device ∧ s.file.credentialAccount = some account then
        match requireCredentialBinding parse true s.file (selectedBaseUrl call s.file) with
        | .error _ => some s.stop
        | .ok binding => some { s with file := binding.config, pc := .bound config account binding }
      else some s.stop
    | _ => none
  | .authGet now =>
    match s.pc with
    | .bound config account binding =>
      match s.keyring account with
      | some (.session session) =>
        if session.account = account ∧ session.origin = binding.credentialOrigin then
          if session.refreshExpiresAt ≤ now then some (s.setSecret account none).stop
          else if accessTokenRefreshSkewMs < session.accessExpiresAt - now then
            some (s.sendAccess parse call config session).stop
          else
            some { s.send session.refreshToken session.origin binding.boundBaseUrl with
              pc := .refreshing config account binding }
        else some s.stop
      | _ => some s.stop
    | _ => none
  | .authRefreshed token now stored =>
    match s.pc with
    | .refreshing config account binding =>
      let next := storedSessionFromToken token account binding.credentialOrigin now
      if stored then some ((s.setSecret account (some (.session next))).sendAccess parse call config next).stop
      else some (s.send token.refreshToken binding.credentialOrigin binding.boundBaseUrl).stop
    | _ => none
  | .authRefused dropped =>
    match s.pc with
    | .refreshing _ account _ => some (if dropped then s.setSecret account none else s).stop
    | _ => none
  | _ => none

/-- The steps of `runDeviceLogin`. -/
def loginStep : CliAct → Option Shell
  | .login =>
    match s.pc with
    | .idle =>
      let baseUrl := selectedBaseUrl call s.file
      match canonicalCredentialOrigin parse baseUrl with
      | none => some s.stop
      | some credentialOrigin =>
        if s.file.authMode = some .device ∧ s.file.credentialAccount.isSome then
          match requireCredentialBinding parse true s.file baseUrl with
          | .ok binding =>
            some { s with
              file := binding.config
              pc := .polling binding.config (some binding.boundBaseUrl) baseUrl credentialOrigin }
          | .error .credentialOriginRequired => some { s with pc := .polling s.file none baseUrl credentialOrigin }
          | .error _ => some s.stop
        else some { s with pc := .polling s.file none baseUrl credentialOrigin }
    | _ => none
  | .loginUnlocked token =>
    match s.pc with
    | .polling _ _ baseUrl credentialOrigin => some (s.send token.refreshToken credentialOrigin baseUrl).stop
    | _ => none
  | .loginGranted fresh token now revoked =>
    match s.pc with
    | .polling config previousBaseUrl baseUrl credentialOrigin =>
      let account := config.credentialAccount.getD fresh
      let session := storedSessionFromToken token account credentialOrigin now
      let storing := CallPc.storing config baseUrl credentialOrigin session
      match previousBaseUrl, s.keyring account with
      | some url, some secret =>
        match refreshFromStoredCredential secret with
        | none => some (s.send token.refreshToken credentialOrigin baseUrl).stop
        | some previous =>
          let s := s.send previous.token previous.issuedFor url
          if revoked then some { s with pc := storing } else some (s.send token.refreshToken credentialOrigin baseUrl).stop
      | _, _ => some { s with pc := storing }
    | _ => none
  | .loginStored stored written =>
    match s.pc with
    | .storing config baseUrl credentialOrigin session =>
      if stored ∧ written then
        some { s.setSecret session.account (some (.session session)) with
          file := { config with
            apiKey := none
            authMode := some .device
            credentialAccount := some session.account
            credentialOrigin := some credentialOrigin
            project := some session.projectId
            target := some .cloud
            baseUrl := some baseUrl }
          pc := .done }
      else some ((s.send session.refreshToken credentialOrigin baseUrl).setSecret session.account none).stop
    | _ => none
  | _ => none

/-- The steps of `runDeviceLogout`. -/
def logoutStep : CliAct → Option Shell
  | .logout =>
    match s.pc with
    | .idle =>
      match s.file.authMode, s.file.credentialAccount with
      | some .device, some account => some { s with pc := .leaving account }
      | _, _ => some s.stop
    | _ => none
  | .logoutLocked =>
    match s.pc with
    | .leaving account =>
      if s.file.authMode = some .device ∧ s.file.credentialAccount = some account then
        match requireCredentialBinding parse true s.file (selectedBaseUrl call s.file) with
        | .error _ => some s.stop
        | .ok binding => some { s with file := binding.config, pc := .unbinding account binding }
      else some s.stop
    | _ => none
  | .logoutGet revoked =>
    match s.pc with
    | .unbinding account binding =>
      let left (s : Shell) : Shell := { s.setSecret account none with
        file := { binding.config with
          authMode := none, credentialAccount := none, credentialOrigin := none, project := none }
        pc := .done }
      match s.keyring account with
      | some secret =>
        match refreshFromStoredCredential secret with
        | none => some s.stop
        | some previous =>
          let s := s.send previous.token previous.issuedFor binding.boundBaseUrl
          if revoked then some (left s) else some s.stop
      | none => some (left s)
    | _ => none
  | _ => none

def next : CliAct → Option Shell
  | .rewrite config => some { s with file := config }
  | .rekey account secret => some (s.setSecret account secret)
  | a => ((s.authStep parse call a).orElse fun _ => s.loginStep parse call a).orElse fun _ => s.logoutStep parse call a

end Shell

def CliStep (s : Shell) (a : CliAct) (t : Shell) : Prop := s.next parse call a = some t

/-- The credential of an account in the store, if it can be read, was issued for this origin. -/
def Shell.holds (s : Shell) (account : String) (origin : Option String) : Bool :=
  ((s.keyring account).bind refreshFromStoredCredential).all fun credential => decide (some credential.issuedFor = origin)

/-- The second reading of the configuration selects the origin that the first one did, and what is to be revoked was issued
for the origin in the configuration. -/
def Shell.undisturbed (s : Shell) (a : CliAct) : Bool :=
  match a, s.pc with
  | .authLocked, .locking config _ =>
    decide (canonicalCredentialOrigin parse (selectedBaseUrl call config) =
      canonicalCredentialOrigin parse (selectedBaseUrl call s.file))
  | .loginGranted fresh _ _ _, .polling config _ _ _ =>
    s.holds (config.credentialAccount.getD fresh) config.credentialOrigin
  | .logoutGet _, .unbinding account binding => s.holds account binding.config.credentialOrigin
  | _, _ => true

def Undisturbed (s : Shell) (a : CliAct) (_ : Shell) : Prop := s.undisturbed parse call a = true

instance (s : Shell) (a : CliAct) (t : Shell) : Decidable (Undisturbed parse call s a t) :=
  inferInstanceAs (Decidable (_ = true))

theorem Shell.holds_issued {s : Shell} {account : String} {origin : Option String} {secret : Secret}
    {credential : Credential} (h : s.holds account origin = true) (hsecret : s.keyring account = some secret)
    (hread : refreshFromStoredCredential secret = some credential) : some credential.issuedFor = origin := by
  unfold Shell.holds at h
  rw [hsecret, Option.bind_some, hread] at h
  exact of_decide_eq_true h

/-! ### Bindings and options -/

section Options

variable {parse call}

/-- A binding is to the origin of the selected address and of the configured one. -/
theorem requireCredentialBinding_ok {device : Bool} {config : CliConfig} {selected : String} {binding : Binding}
    (h : requireCredentialBinding parse device config selected = .ok binding) :
    canonicalCredentialOrigin parse selected = some binding.credentialOrigin ∧
      canonicalCredentialOrigin parse binding.boundBaseUrl = some binding.credentialOrigin ∧
      binding.config.credentialOrigin = some binding.credentialOrigin ∧
      (config.credentialOrigin.isSome → binding.config = config) := by
  have hbound : ∀ {c : CliConfig} {origin selectedOrigin : String}, boundTo parse c origin selectedOrigin = .ok binding →
      binding = ⟨c, origin, c.baseUrl.getD cloudBaseUrl⟩ ∧
        canonicalCredentialOrigin parse (c.baseUrl.getD cloudBaseUrl) = some origin ∧ selectedOrigin = origin := by
    intro c origin selectedOrigin hb
    unfold boundTo at hb
    simp only at hb
    split_ifs at hb with hmismatch
    cases hb
    rw [not_or, not_not, not_not] at hmismatch
    exact ⟨rfl, hmismatch.1, hmismatch.2⟩
  unfold requireCredentialBinding at h
  split at h
  · next selectedOrigin defaultOrigin hselected _ =>
    split at h
    · next origin horigin =>
      obtain ⟨rfl, hconfigured, rfl⟩ := hbound h
      exact ⟨hselected, hconfigured, horigin, fun _ => rfl⟩
    · next hnone =>
      split_ifs at h
      obtain ⟨rfl, hconfigured, rfl⟩ := hbound h
      refine ⟨hselected, hconfigured, rfl, fun hsome => ?_⟩
      rw [hnone] at hsome
      cases hsome
  · cases h

/-- Without an address of its own the SDK takes the selected one for the cloud. -/
theorem sdkBaseUrl_device (config : CliConfig) (apiKey project : Option String) :
    { clientOptions parse call config with target := .cloud, apiKey := apiKey, project := project }.sdkBaseUrl =
      selectedBaseUrl call config := by
  unfold ClientOptions.sdkBaseUrl selectedBaseUrl clientOptions
  cases hurl : (call.urlFlag <|> call.envUrl <|> config.baseUrl) with
  | some url => rfl
  | none =>
    have hconfig : config.baseUrl = none := by
      cases hflag : call.urlFlag with
      | some url => simp [hflag] at hurl
      | none =>
        cases henv : call.envUrl with
        | some url => simp [hflag, henv] at hurl
        | none => simpa [hflag, henv] using hurl
    simp only [hconfig, Option.getD_none]
    split <;> rfl

/-- The saved API key only goes to the origin that it was saved with. -/
theorem apiKey_home {config : CliConfig} {key : String} (henv : truthy call.envApiKey = none)
    (hkey : (clientOptions parse call config).apiKey = some key) :
    canonicalCredentialOrigin parse (clientOptions parse call config).sdkBaseUrl = config.credentialOrigin ∧
      config.credentialOrigin.isSome = true := by
  have hvalue : (clientOptions parse call config).apiKey =
      truthy (call.envApiKey <|> if storedCredentialIsBound parse call config then storedCredential config else none) := rfl
  rw [hvalue] at hkey
  have hnone : call.envApiKey = none := by
    cases he : call.envApiKey with
    | none => rfl
    | some value =>
      rw [he] at henv hkey
      change truthy (some value) = some key at hkey
      rw [henv] at hkey
      cases hkey
  have hbound : storedCredentialIsBound parse call config = true := by
    by_contra hnot
    rw [hnone] at hkey
    change truthy (if storedCredentialIsBound parse call config then storedCredential config else none) = some key at hkey
    rw [if_neg hnot] at hkey
    cases hkey
  have hb := hbound
  simp only [storedCredentialIsBound, Bool.and_eq_true, decide_eq_true_eq] at hb
  obtain ⟨⟨⟨_, hsome⟩, hselected⟩, hconfigured⟩ := hb
  refine ⟨?_, hsome⟩
  unfold ClientOptions.sdkBaseUrl clientOptions
  simp only [hnone, hbound, and_self, if_true]
  cases hurl : (call.urlFlag <|> call.envUrl <|> config.baseUrl) with
  | some url =>
    rw [hurl] at hselected
    exact hselected
  | none => exact hconfigured

end Options

/-! ### What is sent goes home -/

/-- What is known of the binding where the call stands. -/
def CallPc.Bound : CallPc → Prop
  | .bound config _ binding | .refreshing config _ binding =>
    canonicalCredentialOrigin parse (selectedBaseUrl call config) = some binding.credentialOrigin ∧
      canonicalCredentialOrigin parse binding.boundBaseUrl = some binding.credentialOrigin
  | .polling config previousBaseUrl baseUrl credentialOrigin =>
    canonicalCredentialOrigin parse baseUrl = some credentialOrigin ∧
      ∀ url, previousBaseUrl = some url → canonicalCredentialOrigin parse url = config.credentialOrigin
  | .storing _ baseUrl credentialOrigin _ => canonicalCredentialOrigin parse baseUrl = some credentialOrigin
  | .unbinding _ binding => canonicalCredentialOrigin parse binding.boundBaseUrl = binding.config.credentialOrigin
  | _ => True

structure Shell.Inv (s : Shell) : Prop where
  bound : s.pc.Bound parse call
  home : ∀ x ∈ s.sent, x.Home parse

section Steps

variable {parse call} {s t : Shell} {a : CliAct}

theorem Shell.Inv.stop (h : s.Inv parse call) : s.stop.Inv parse call := ⟨trivial, h.home⟩

theorem Shell.Inv.at (h : s.Inv parse call) (file : CliConfig) {pc : CallPc} (hpc : pc.Bound parse call) :
    Shell.Inv parse call { s with file := file, pc := pc } := ⟨hpc, h.home⟩

theorem Shell.Inv.setSecret (h : s.Inv parse call) (account : String) (secret : Option Secret) :
    (s.setSecret account secret).Inv parse call := ⟨h.bound, h.home⟩

theorem Shell.Inv.send (h : s.Inv parse call) {issuedFor url : String} (token : String)
    (hurl : canonicalCredentialOrigin parse url = some issuedFor) : (s.send token issuedFor url).Inv parse call := by
  refine ⟨h.bound, fun x hx => ?_⟩
  rcases List.mem_append.mp hx with hx | hx
  · exact h.home x hx
  · rw [List.mem_singleton.mp hx]
    exact hurl

theorem Shell.Inv.sendAccess (h : s.Inv parse call) {config : CliConfig} {session : StoredDeviceSession}
    (hurl : canonicalCredentialOrigin parse (selectedBaseUrl call config) = some session.origin) :
    (s.sendAccess parse call config session).Inv parse call := by
  apply h.send
  rw [sdkBaseUrl_device]
  exact hurl

theorem Shell.Inv.sendApiKey (h : s.Inv parse call) (config : CliConfig) (henv : truthy call.envApiKey = none) :
    (s.sendApiKey parse call config).Inv parse call := by
  unfold Shell.sendApiKey
  simp only
  split
  · next key hkey =>
    obtain ⟨hhome, hsome⟩ := apiKey_home henv hkey
    obtain ⟨origin, horigin⟩ := Option.isSome_iff_exists.mp hsome
    apply h.send
    rw [hhome, horigin]
    rfl
  · exact h

theorem authStep_inv (h : s.Inv parse call) (hg : Undisturbed parse call s a t)
    (hstep : s.authStep parse call a = some t) : t.Inv parse call := by
  cases a with
  | authenticate =>
    simp only [Shell.authStep] at hstep
    split at hstep
    · split_ifs at hstep with henv hkey
      · cases hstep
        exact h.stop
      · split at hstep
        · cases hstep
          exact h.stop
        · cases hstep
          exact (h.sendApiKey s.file (Option.not_isSome_iff_eq_none.mp henv)).stop
      · split at hstep
        · cases hstep
          exact h.at s.file trivial
        · cases hstep
          exact h.stop
    · cases hstep
  | authLocked =>
    simp only [Shell.authStep] at hstep
    split at hstep
    · next config account hpc =>
      split_ifs at hstep
      · split at hstep
        · cases hstep
          exact h.stop
        · next binding hbinding =>
          cases hstep
          obtain ⟨hselected, hbound, _⟩ := requireCredentialBinding_ok hbinding
          simp only [Undisturbed, Shell.undisturbed, hpc, decide_eq_true_eq] at hg
          exact h.at binding.config ⟨hg.trans hselected, hbound⟩
      · cases hstep
        exact h.stop
    · cases hstep
  | authGet now =>
    simp only [Shell.authStep] at hstep
    split at hstep
    · next config account binding hpc =>
      have hbound := h.bound
      rw [hpc] at hbound
      split at hstep
      · next session _ =>
        split_ifs at hstep with hsession hexpired hfresh
        · cases hstep
          exact (h.setSecret account none).stop
        · cases hstep
          apply (h.sendAccess _).stop
          rw [hsession.2]
          exact hbound.1
        · cases hstep
          have hsent := h.send session.refreshToken (hbound.2.trans (congrArg some hsession.2.symm))
          exact hsent.at s.file hbound
        · cases hstep
          exact h.stop
      · cases hstep
        exact h.stop
    · cases hstep
  | authRefreshed token now stored =>
    simp only [Shell.authStep] at hstep
    split at hstep
    · next config account binding hpc =>
      have hbound := h.bound
      rw [hpc] at hbound
      split_ifs at hstep
      · cases hstep
        exact ((h.setSecret account _).sendAccess hbound.1).stop
      · cases hstep
        exact (h.send token.refreshToken hbound.2).stop
    · cases hstep
  | authRefused dropped =>
    simp only [Shell.authStep] at hstep
    split at hstep
    · next account _ _ =>
      cases hstep
      cases dropped with
      | true => exact (h.setSecret _ none).stop
      | false => exact h.stop
    · cases hstep
  | _ => cases hstep

theorem loginStep_inv (h : s.Inv parse call) (hg : Undisturbed parse call s a t)
    (hstep : s.loginStep parse call a = some t) : t.Inv parse call := by
  cases a with
  | login =>
    simp only [Shell.loginStep] at hstep
    split at hstep
    · split at hstep
      · cases hstep
        exact h.stop
      · next credentialOrigin horigin =>
        have hfresh : CallPc.Bound parse call
            (.polling s.file none (selectedBaseUrl call s.file) credentialOrigin) := ⟨horigin, fun _ hurl => by cases hurl⟩
        split_ifs at hstep
        · split at hstep
          · next binding hbinding =>
            cases hstep
            obtain ⟨_, hbound, hconfig, _⟩ := requireCredentialBinding_ok hbinding
            refine h.at binding.config ⟨horigin, fun url hurl => ?_⟩
            obtain rfl := Option.some.inj hurl
            rw [hconfig]
            exact hbound
          · cases hstep
            exact h.at s.file hfresh
          · cases hstep
            exact h.stop
        · cases hstep
          exact h.at s.file hfresh
    · cases hstep
  | loginUnlocked token =>
    simp only [Shell.loginStep] at hstep
    split at hstep
    · next hpc =>
      have hbound := h.bound
      rw [hpc] at hbound
      cases hstep
      exact (h.send token.refreshToken hbound.1).stop
    · cases hstep
  | loginGranted fresh token now revoked =>
    simp only [Shell.loginStep] at hstep
    split at hstep
    · next config previousBaseUrl baseUrl credentialOrigin hpc =>
      have hbound := h.bound
      rw [hpc] at hbound
      have hstoring : ∀ session, CallPc.Bound parse call (.storing config baseUrl credentialOrigin session) :=
        fun _ => hbound.1
      split at hstep
      · next url secret hsecret =>
        split at hstep
        · cases hstep
          exact (h.send token.refreshToken hbound.1).stop
        · next previous hprevious =>
          have hissued : some previous.issuedFor = config.credentialOrigin := by
            simp only [Undisturbed, Shell.undisturbed, hpc] at hg
            exact Shell.holds_issued hg hsecret hprevious
          have hsent := h.send previous.token ((hbound.2 url rfl).trans hissued.symm)
          split_ifs at hstep
          · cases hstep
            exact hsent.at s.file (hstoring _)
          · cases hstep
            exact (hsent.send token.refreshToken hbound.1).stop
      · cases hstep
        exact h.at s.file (hstoring _)
    · cases hstep
  | loginStored stored written =>
    simp only [Shell.loginStep] at hstep
    split at hstep
    · next config baseUrl credentialOrigin session hpc =>
      have hbound := h.bound
      rw [hpc] at hbound
      split_ifs at hstep
      · cases hstep
        exact (h.setSecret _ _).at _ trivial
      · cases hstep
        exact ((h.send session.refreshToken hbound).setSecret _ none).stop
    · cases hstep
  | _ => cases hstep

theorem logoutStep_inv (h : s.Inv parse call) (hg : Undisturbed parse call s a t)
    (hstep : s.logoutStep parse call a = some t) : t.Inv parse call := by
  cases a with
  | logout =>
    simp only [Shell.logoutStep] at hstep
    split at hstep
    · split at hstep
      · cases hstep
        exact h.at s.file trivial
      · cases hstep
        exact h.stop
    · cases hstep
  | logoutLocked =>
    simp only [Shell.logoutStep] at hstep
    split at hstep
    · split_ifs at hstep
      · split at hstep
        · cases hstep
          exact h.stop
        · next binding hbinding =>
          cases hstep
          obtain ⟨_, hbound, hconfig, _⟩ := requireCredentialBinding_ok hbinding
          exact h.at binding.config (hbound.trans hconfig.symm)
      · cases hstep
        exact h.stop
    · cases hstep
  | logoutGet revoked =>
    simp only [Shell.logoutStep] at hstep
    split at hstep
    · next account binding hpc =>
      have hbound := h.bound
      rw [hpc] at hbound
      split at hstep
      · next secret hsecret =>
        split at hstep
        · cases hstep
          exact h.stop
        · next previous hprevious =>
          have hissued : some previous.issuedFor = binding.config.credentialOrigin := by
            simp only [Undisturbed, Shell.undisturbed, hpc] at hg
            exact Shell.holds_issued hg hsecret hprevious
          have hsent := h.send previous.token (hbound.trans hissued.symm)
          split_ifs at hstep
          · cases hstep
            exact (hsent.setSecret account none).at _ trivial
          · cases hstep
            exact hsent.stop
      · cases hstep
        exact (h.setSecret account none).at _ trivial
    · cases hstep
  | _ => cases hstep

theorem Shell.Inv.step (h : s.Inv parse call) (hstep : CliStep parse call s a t) (hg : Undisturbed parse call s a t) :
    t.Inv parse call := by
  unfold CliStep Shell.next at hstep
  split at hstep
  · cases hstep
    exact ⟨h.bound, h.home⟩
  · cases hstep
    exact h.setSecret _ _
  · rw [Option.orElse_eq_or, Option.orElse_eq_or] at hstep
    rcases Option.or_eq_some_iff.mp hstep with hstep | ⟨_, hstep⟩
    · rcases Option.or_eq_some_iff.mp hstep with hstep | ⟨_, hstep⟩
      · exact authStep_inv h hg hstep
      · exact loginStep_inv h hg hstep
    · exact logoutStep_inv h hg hstep

end Steps

/-- A call that has not started. -/
def Shell.start (file : CliConfig) (keyring : String → Option Secret) : Shell := ⟨file, keyring, .idle, []⟩

/-- **A stored credential only goes to the origin that it was issued for or saved with**, whatever other processes write, as
long as they leave the call undisturbed. -/
theorem credential_stays (parse : UrlParser) (call : Invocation) (file : CliConfig) (keyring : String → Option Secret)
    (acts : List CliAct) (s : Shell)
    (h : RunIn (CliStep parse call) (Undisturbed parse call) (.start file keyring) acts s) :
    ∀ x ∈ s.sent, canonicalCredentialOrigin parse x.url = some x.credential.issuedFor :=
  (RunIn.invariant (I := Shell.Inv parse call) (fun _ _ _ hinv hstep hg => hinv.step hstep hg) h
    ⟨trivial, fun _ hx => absurd hx List.not_mem_nil⟩).home

namespace Sample

/-- `new URL` on the addresses of the samples. -/
def parseUrl (text : String) : Option ParsedUrl :=
  if text = cloudBaseUrl then
    some ⟨"https:", "", "", "api.boringcomputers.com", "/", "", "", "https://api.boringcomputers.com"⟩
  else if text = "https://old.example" then some ⟨"https:", "", "", "old.example", "/", "", "", "https://old.example"⟩
  else if text = "https://new.example" then some ⟨"https:", "", "", "new.example", "/", "", "", "https://new.example"⟩
  else none

def account : String := "11111111-1111-4111-8111-111111111111"

def session : StoredDeviceSession := ⟨account, "https://new.example", "refresh", 2000000, "access", 1000000, "project"⟩

/-- A login from before origins were stored. -/
def legacyConfig : CliConfig :=
  { authMode := some .device, credentialAccount := some account, baseUrl := some "https://old.example" }

/-- What `bc login --url https://new.example` makes of it. -/
def newConfig : CliConfig :=
  { legacyConfig with
    credentialOrigin := some "https://new.example"
    project := some "project"
    target := some .cloud
    baseUrl := some "https://new.example" }

/-- A command starts over the old login, and another process logs in anew before the lock is taken. -/
def relogin : List CliAct :=
  [.authenticate, .rekey account (some (.session session)), .rewrite newConfig, .authLocked, .authGet 0]

/-- The command after the login. -/
def authenticated : List CliAct :=
  [.rekey account (some (.session session)), .rewrite newConfig, .authenticate, .authLocked, .authGet 0]

end Sample

/-- A session that is valid goes to its own origin. -/
theorem authenticated_stays : ∃ s, RunIn (CliStep Sample.parseUrl {}) (Undisturbed Sample.parseUrl {})
    (.start Sample.legacyConfig fun _ => none) Sample.authenticated s ∧
      s.sent = [⟨⟨"access", "https://new.example"⟩, "https://new.example"⟩] ∧
      ∀ x ∈ s.sent, canonicalCredentialOrigin Sample.parseUrl x.url = some x.credential.issuedFor := by
  have h : (execIn (Shell.next Sample.parseUrl {}) (Undisturbed Sample.parseUrl {})
      (.start Sample.legacyConfig fun _ => none) Sample.authenticated).any (fun s =>
        decide (s.sent = [⟨⟨"access", "https://new.example"⟩, "https://new.example"⟩])) = true := by decide +kernel
  obtain ⟨s, hrun, hsent⟩ := RunIn.of_test h
  exact ⟨s, hrun, hsent, credential_stays Sample.parseUrl {} _ _ _ s hrun⟩

/-- The access token for the new origin goes to the address of the old one. -/
theorem relogin_leaks : ¬ ∀ (file : CliConfig) (keyring : String → Option Secret) (acts : List CliAct) (s : Shell),
    Run (CliStep Sample.parseUrl {}) (.start file keyring) acts s →
      ∀ x ∈ s.sent, canonicalCredentialOrigin Sample.parseUrl x.url = some x.credential.issuedFor := by
  intro hall
  have h : (exec (Shell.next Sample.parseUrl {}) (.start Sample.legacyConfig fun _ => none) Sample.relogin).any (fun s =>
      decide (s.sent = [⟨⟨"access", "https://new.example"⟩, "https://old.example"⟩])) = true := by decide +kernel
  obtain ⟨s, hrun, hsent⟩ := Run.of_test h
  have hmem : ⟨⟨"access", "https://new.example"⟩, "https://old.example"⟩ ∈ s.sent := by
    rw [hsent]
    exact List.mem_singleton.mpr rfl
  have hhome := hall _ _ _ s hrun _ hmem
  exact absurd hhome (by decide +kernel)

end Nehemiah.Cli
