import LightningRelay.Codec.Text
import LightningRelay.Helpers
import LightningRelay.HexUtils

/-!
# The arguments of the program

`parse_startup_args` of `args.rs`: the arguments and the environment are read into the settings of the
node.

* `startup_accepts_iff`: what is accepted, and as which settings, said of the text of the arguments and
  without the splitting that the code does.
* `startup_complains_iff`: credentials that are found outside the first argument are used, but the code
  complains that there are none: the arguments of `Result::or` are evaluated before it is called.
-/

set_option autoImplicit false

namespace LightningRelay

open Codec

namespace Startup

/-! ## What is read -/

inductive Network where
  | bitcoin
  | testnet
  | regtest
  | signet
  deriving DecidableEq, Repr

abbrev SocketAddress := String

structure CardanoRelayConfig where
  blockfrostUrl : String
  blockfrostKey : String
  skeyPath : String
  scriptAddress : String
  scriptCborPath : String
  cbtcPolicyId : String
  cbtcAssetName : String
  operatorAddress : String
  operatorPkh : String
  deriving DecidableEq, Repr

structure LdkUserInfo where
  bitcoindRpcUsername : String
  bitcoindRpcPassword : String
  bitcoindRpcPort : ℕ
  bitcoindRpcHost : String
  ldkStorageDirPath : String
  ldkPeerListeningPort : ℕ
  ldkAnnouncedListenAddr : List SocketAddress
  ldkAnnouncedNodeName : List UInt8
  network : Network
  cardano : Option CardanoRelayConfig
  deriving DecidableEq, Repr

/-- The environment: its variables, the files by the components of their paths, the home directory, and
`SocketAddress::from_str`. -/
structure Environment where
  var : String → Option String
  readToString : List String → Option String
  homeDir : Option String
  socketAddress : String → Option SocketAddress

/-- How the parsing ends where it does not return settings: `Err(())`, or a panic. -/
inductive Fail where
  | err
  | panic (message : String)
  deriving DecidableEq, Repr

/-- The lines that are printed, and the result. -/
structure Console (α : Type) where
  printed : List String
  result : Except Fail α

namespace Console

variable {α β : Type}

def bind (x : Console α) (f : α → Console β) : Console β :=
  match x.result with
  | .ok a => ⟨x.printed ++ (f a).printed, (f a).result⟩
  | .error e => ⟨x.printed, .error e⟩

instance : Monad Console where
  pure a := ⟨[], .ok a⟩
  bind := bind

def fail (e : Fail) : Console α := ⟨[], .error e⟩

def println (line : String) : Console Unit := ⟨[line], .ok ()⟩

/-- What is printed, and the result if there is one (`Result::ok`). -/
def attempt (x : Console α) : Console (Option α) :=
  ⟨x.printed, match x.result with
    | .ok a => .ok (some a)
    | .error .err => .ok none
    | .error (.panic m) => .error (.panic m)⟩

@[simp] theorem result_pure (a : α) : (pure a : Console α).result = .ok a := rfl

@[simp] theorem result_fail (e : Fail) : (fail e : Console α).result = .error e := rfl

@[simp] theorem result_println (line : String) : (println line).result = .ok () := rfl

@[simp] theorem result_bind_eq_ok {x : Console α} {f : α → Console β} {b : β} :
    (x >>= f).result = .ok b ↔ ∃ a, x.result = .ok a ∧ (f a).result = .ok b := by
  change (x.bind f).result = .ok b ↔ _
  rcases hx : x.result with e | a
  · simp [bind, hx]
  · simp [bind, hx]

end Console

open Console

/-! ## Credentials -/

def bitcoindRpcUserKey : String := "RPC_USER"

def bitcoindRpcPasswordKey : String := "RPC_PASSWORD"

def defaultBitcoinDatadir : String := ".bitcoin"

def parseRpcAuth (rpcAuth : String) : Console (String × String) := do
  match Text.split ':' rpcAuth with
  | [username, password] => pure (username, password)
  | _ => do
    println "ERROR: bad bitcoind RPC username/password combo provided"
    fail .err

def getRpcAuthFromEnvVars (E : Environment) : Option (String × String) :=
  match E.var bitcoindRpcUserKey, E.var bitcoindRpcPasswordKey with
  | some username, some password => some (username, password)
  | _, _ => none

/-- The pairs of a `.env` file, the last one first. -/
def envPairs (pairs : List (String × String)) : List String → Console (List (String × String))
  | [] => pure pairs
  | line :: lines => do
    match Text.splitOnce '=' line with
    | some pair => envPairs (pair :: pairs) lines
    | none => do
      println "ERROR: bad .env file format"
      fail .err

def parseEnvFile (E : Environment) : Console (List (String × String)) := do
  match E.readToString [".env"] with
  | none => fail .err
  | some contents => envPairs [] (Text.lines contents)

def getRpcAuthFromEnvFile (E : Environment) : Console (String × String) := do
  let pairs ← parseEnvFile E
  match pairs.lookup bitcoindRpcUserKey, pairs.lookup bitcoindRpcPasswordKey with
  | some username, some password => pure (username, password)
  | _, _ => fail .err

/-- The path of the cookie in the default data directory. -/
def getCookiePath (E : Environment) (network : Network) : Option (List String) :=
  E.homeDir.map fun home =>
    home :: defaultBitcoinDatadir :: match network with
      | .testnet => ["testnet3", ".cookie"]
      | .regtest => ["regtest", ".cookie"]
      | .signet => ["signet", ".cookie"]
      | .bitcoin => [".cookie"]

def getRpcAuthFromCookie (E : Environment) (network : Network) : Console (String × String) := do
  match (getCookiePath E network).bind E.readToString with
  | none => fail .err
  | some contents => parseRpcAuth contents

def printRpcAuthHelp (E : Environment) : Console Unit := do
  let home := (E.homeDir.getD "$HOME").toList.map fun c => if c = '\\' then '/' else c
  let dataDir := String.ofList home ++ "/" ++ defaultBitcoinDatadir
  println "To provide the bitcoind RPC username and password, you can either:"
  println "1. Provide the username and password as the first argument to this program in the format: <bitcoind-rpc-username>:<bitcoind-rpc-password>@<bitcoind-rpc-host>:<bitcoind-rpc-port>"
  println ("2. Provide <bitcoind-rpc-username>:<bitcoind-rpc-password> in a .cookie file in the default bitcoind data directory (automatically created by bitcoind on startup): `" ++ dataDir ++ "`")
  println s!"3. Set the {bitcoindRpcUserKey} and {bitcoindRpcPasswordKey} environment variables"
  println s!"4. Provide {bitcoindRpcUserKey} and {bitcoindRpcPasswordKey} fields in a .env file in the current directory"

def noCredentials : String := "ERROR: unable to get bitcoind RPC username and password"

/-- The credentials where the first argument has none: from the variables, the `.env` file or the
cookie, the first that has some. All are looked at, and the complaint is printed in any case. -/
def defaultRpcAuth (E : Environment) (network : Network) : Console (String × String) := do
  let fromFile ← attempt (getRpcAuthFromEnvFile E)
  let fromCookie ← attempt (getRpcAuthFromCookie E network)
  println noCredentials
  printRpcAuthHelp E
  match ((getRpcAuthFromEnvVars E).or fromFile).or fromCookie with
  | some auth => pure auth
  | none => fail .err

def rpcAuth (E : Environment) (network : Network) : Option String → Console (String × String)
  | none => defaultRpcAuth E network
  | some auth => parseRpcAuth auth

/-! ## The arguments -/

/-- The text of an unwrapped `ParseIntError`. -/
def unwrapped (e : IntError) : String :=
  "called `Result::unwrap()` on an `Err` value: ParseIntError \x7b kind: " ++ e.debug ++ " \x7d"

/-- The listening port and the arguments after it. -/
def peerListeningPort : List String → ℕ × List String
  | [] => (9735, [])
  | arg :: args =>
    match Decimal.unsigned 65535 arg with
    | .ok port => (port, args)
    | .error _ => (9735, arg :: args)

def parseNetwork : Option String → Console Network
  | some "testnet" => pure .testnet
  | some "regtest" => pure .regtest
  | some "signet" => pure .signet
  | some net => fail (.panic s!"Unsupported network provided. Options are: `regtest`, `testnet`, and `signet`. Got {net}")
  | none => pure .testnet

/-- The alias, filled up with zeros to 32 bytes. -/
def announcedNodeName : Option String → Console (List UInt8)
  | some name =>
    if (asBytes name).length > 32 then fail (.panic "Node Alias can not be longer than 32 bytes")
    else pure (asBytes name ++ List.replicate (32 - (asBytes name).length) 0)
  | none => pure (List.replicate 32 0)

def announcedListenAddr (E : Environment) : List String → Console (List SocketAddress)
  | [] => pure []
  | arg :: args => do
    match E.socketAddress arg with
    | none => fail (.panic "Failed to parse announced-listen-addr into a socket address")
    | some addr => pure (addr :: (← announcedListenAddr E args))

/-- A variable that Cardano needs. -/
def required (E : Environment) (name : String) : Console String :=
  match E.var name with
  | some value => pure value
  | none => fail (.panic s!"CARDANO_ENABLED=true but {name} not set")

def cardanoEnabled (E : Environment) : Bool :=
  E.var "CARDANO_ENABLED" = some "1" || E.var "CARDANO_ENABLED" = some "true"

def localhostWarning : String :=
  "WARNING: CARDANO_BLOCKFROST_URL defaults to localhost — set it explicitly for production"

def warnLocalhost (blockfrostUrl : String) : Console Unit :=
  if contains blockfrostUrl "localhost" then println localhostWarning else pure ()

def cardanoConfig (E : Environment) : Console (Option CardanoRelayConfig) :=
  if cardanoEnabled E then do
    let skeyPath ← required E "CARDANO_SKEY_PATH"
    let scriptAddress ← required E "CARDANO_SCRIPT_ADDRESS"
    let scriptCborPath ← required E "CARDANO_SCRIPT_CBOR_PATH"
    let cbtcPolicyId ← required E "CARDANO_CBTC_POLICY_ID"
    let cbtcAssetName ← required E "CARDANO_CBTC_ASSET_NAME"
    let operatorAddress ← required E "CARDANO_OPERATOR_ADDRESS"
    let operatorPkh ← required E "CARDANO_OPERATOR_PKH"
    let blockfrostUrl := (E.var "CARDANO_BLOCKFROST_URL").getD "http://localhost:8080/api/v1/"
    let blockfrostKey := (E.var "CARDANO_BLOCKFROST_KEY").getD "local"
    warnLocalhost blockfrostUrl
    pure (some ⟨blockfrostUrl, blockfrostKey, skeyPath, scriptAddress, scriptCborPath, cbtcPolicyId,
      cbtcAssetName, operatorAddress, operatorPkh⟩)
  else pure none

/-- The host and the port of `host:port`. -/
def rpcPath (path : String) : Console (String × ℕ) := do
  match Text.split ':' path with
  | [host, portStr] =>
    match Decimal.unsigned 65535 portStr with
    | .ok port => pure (host, port)
    | .error e => fail (.panic (unwrapped e))
  | _ => do
    println "ERROR: bad bitcoind RPC path provided"
    fail .err

/-- Read the arguments, the first of which is the name of the program. -/
def parseStartupArgs (E : Environment) : List String → Console LdkUserInfo
  | _ :: rpcInfo :: storageDir :: rest => do
    let parts := Text.rsplitOnce '@' rpcInfo
    let path ← rpcPath ((parts.map Prod.snd).getD rpcInfo)
    let port := peerListeningPort rest
    let network ← parseNetwork port.2.head?
    let auth ← rpcAuth E network (parts.map Prod.fst)
    let nodeName ← announcedNodeName port.2[1]?
    let listenAddr ← announcedListenAddr E (port.2.drop 2)
    let cardano ← cardanoConfig E
    pure
      { bitcoindRpcUsername := auth.1
        bitcoindRpcPassword := auth.2
        bitcoindRpcPort := path.2
        bitcoindRpcHost := path.1
        ldkStorageDirPath := storageDir
        ldkPeerListeningPort := port.1
        ldkAnnouncedListenAddr := listenAddr
        ldkAnnouncedNodeName := nodeName
        network := network
        cardano := cardano }
  | _ => do
    println "ldk-tutorial-node requires at least 2 arguments: `cargo run [<bitcoind-rpc-username>:<bitcoind-rpc-password>@]<bitcoind-rpc-host>:<bitcoind-rpc-port> ldk_storage_directory_path [<ldk-incoming-peer-listening-port>] [bitcoin-network] [announced-node-name announced-listen-addr*]`"
    fail .err

/-! ## The text that is accepted -/

/-- The variables of the credentials. -/
def VarsText (E : Environment) (username password : String) : Prop :=
  E.var "RPC_USER" = some username ∧ E.var "RPC_PASSWORD" = some password

/-- The value of the last pair with the key. -/
def LastValue (pairs : List (String × String)) (key value : String) : Prop :=
  ∃ before after, pairs = before ++ (key, value) :: after ∧ ∀ p ∈ after, p.1 ≠ key

/-- The file `.env`: all its lines are `key=value`, and the last ones with the two keys count. -/
def EnvFileText (E : Environment) (username password : String) : Prop :=
  ∃ (contents : String) (pairs : List (String × String)), E.readToString [".env"] = some contents ∧
    Text.lines contents = pairs.map (fun p => p.1 ++ "=" ++ p.2) ∧
    (∀ p ∈ pairs, '=' ∉ p.1.toList) ∧
    LastValue pairs "RPC_USER" username ∧ LastValue pairs "RPC_PASSWORD" password

/-- Where bitcoind leaves its cookie, below the home directory. -/
def cookieFile : Network → List String
  | .bitcoin => [".bitcoin", ".cookie"]
  | .testnet => [".bitcoin", "testnet3", ".cookie"]
  | .regtest => [".bitcoin", "regtest", ".cookie"]
  | .signet => [".bitcoin", "signet", ".cookie"]

/-- The cookie of the network: `username:password`. -/
def CookieText (E : Environment) (network : Network) (username password : String) : Prop :=
  ∃ home, E.homeDir = some home ∧
    E.readToString (home :: cookieFile network) = some (username ++ ":" ++ password) ∧
    ':' ∉ username.toList ∧ ':' ∉ password.toList

/-- The first complete source of credentials outside the arguments: the variables, the file `.env`, the
cookie. -/
inductive FirstSource (E : Environment) (network : Network) (username password : String) : Prop where
  | vars : VarsText E username password → FirstSource E network username password
  | file : (∀ u p, ¬ VarsText E u p) → EnvFileText E username password →
      FirstSource E network username password
  | cookie : (∀ u p, ¬ VarsText E u p) → (∀ u p, ¬ EnvFileText E u p) →
      CookieText E network username password → FirstSource E network username password

/-- `[username:password@]host:port`. A name or a password may contain `@`. -/
structure RpcText (E : Environment) (info : LdkUserInfo) (text : String) : Prop where
  spelled : ∃ portStr, Decimal.unsigned 65535 portStr = .ok info.bitcoindRpcPort ∧
    ':' ∉ info.bitcoindRpcHost.toList ∧ ':' ∉ portStr.toList ∧
    '@' ∉ info.bitcoindRpcHost.toList ∧ '@' ∉ portStr.toList ∧
    ((text = info.bitcoindRpcUsername ++ ":" ++ info.bitcoindRpcPassword ++ "@" ++
          (info.bitcoindRpcHost ++ ":" ++ portStr) ∧
        ':' ∉ info.bitcoindRpcUsername.toList ∧ ':' ∉ info.bitcoindRpcPassword.toList) ∨
      (text = info.bitcoindRpcHost ++ ":" ++ portStr ∧
        FirstSource E info.network info.bitcoindRpcUsername info.bitcoindRpcPassword))

/-- The name of a network. -/
def Network.names : Network → List String
  | .testnet => ["testnet"]
  | .regtest => ["regtest"]
  | .signet => ["signet"]
  | .bitcoin => []

/-- `[network [alias address*]]`. -/
def NodeText (E : Environment) (info : LdkUserInfo) : List String → Prop
  | [] => info.network = .testnet ∧ info.ldkAnnouncedNodeName = List.replicate 32 0 ∧
      info.ldkAnnouncedListenAddr = []
  | [net] => net ∈ info.network.names ∧ info.ldkAnnouncedNodeName = List.replicate 32 0 ∧
      info.ldkAnnouncedListenAddr = []
  | net :: name :: addrs => net ∈ info.network.names ∧ (asBytes name).length ≤ 32 ∧
      info.ldkAnnouncedNodeName = asBytes name ++ List.replicate (32 - (asBytes name).length) 0 ∧
      addrs.map E.socketAddress = info.ldkAnnouncedListenAddr.map some

/-- `[port]` and what follows it: an argument that is not a port is the network. -/
def PortText (E : Environment) (info : LdkUserInfo) (args : List String) : Prop :=
  (∃ portStr rest, args = portStr :: rest ∧
      Decimal.unsigned 65535 portStr = .ok info.ldkPeerListeningPort ∧ NodeText E info rest) ∨
    info.ldkPeerListeningPort = 9735 ∧ NodeText E info args ∧
      ∀ arg ∈ args.head?, ∀ port, Decimal.unsigned 65535 arg ≠ .ok port

/-- The variables of Cardano, all of which but two are needed. -/
structure CardanoText (E : Environment) (c : CardanoRelayConfig) : Prop where
  skeyPath : E.var "CARDANO_SKEY_PATH" = some c.skeyPath
  scriptAddress : E.var "CARDANO_SCRIPT_ADDRESS" = some c.scriptAddress
  scriptCborPath : E.var "CARDANO_SCRIPT_CBOR_PATH" = some c.scriptCborPath
  cbtcPolicyId : E.var "CARDANO_CBTC_POLICY_ID" = some c.cbtcPolicyId
  cbtcAssetName : E.var "CARDANO_CBTC_ASSET_NAME" = some c.cbtcAssetName
  operatorAddress : E.var "CARDANO_OPERATOR_ADDRESS" = some c.operatorAddress
  operatorPkh : E.var "CARDANO_OPERATOR_PKH" = some c.operatorPkh
  blockfrostUrl : c.blockfrostUrl = (E.var "CARDANO_BLOCKFROST_URL").getD "http://localhost:8080/api/v1/"
  blockfrostKey : c.blockfrostKey = (E.var "CARDANO_BLOCKFROST_KEY").getD "local"

/-- The settings of Cardano, none where it is not enabled. -/
def CardanoSettings (E : Environment) (cardano : Option CardanoRelayConfig) : Prop :=
  match cardano with
  | none => E.var "CARDANO_ENABLED" ≠ some "1" ∧ E.var "CARDANO_ENABLED" ≠ some "true"
  | some c => (E.var "CARDANO_ENABLED" = some "1" ∨ E.var "CARDANO_ENABLED" = some "true") ∧
      CardanoText E c

/-- The arguments and the environment spell the settings. -/
def Spells (E : Environment) (args : List String) (info : LdkUserInfo) : Prop :=
  ∃ program rpcInfo rest, args = program :: rpcInfo :: info.ldkStorageDirPath :: rest ∧
    RpcText E info rpcInfo ∧ PortText E info rest ∧ CardanoSettings E info.cardano

section

variable {E : Environment} {info : LdkUserInfo}

theorem parseRpcAuth_ok {text username password : String} :
    (parseRpcAuth text).result = .ok (username, password) ↔
      text = username ++ ":" ++ password ∧ ':' ∉ username.toList ∧ ':' ∉ password.toList := by
  rw [show ":" = String.singleton ':' from rfl, ← Text.split_eq_pair, parseRpcAuth]
  split
  · next u p h => simp [h]
  · next h =>
    simp only [result_bind_eq_ok, result_fail, reduceCtorEq, and_false, exists_false, false_iff]
    exact h username password

theorem rpcPath_ok {path host : String} {port : ℕ} : (rpcPath path).result = .ok (host, port) ↔
    ∃ portStr, Decimal.unsigned 65535 portStr = .ok port ∧ path = host ++ ":" ++ portStr ∧
      ':' ∉ host.toList ∧ ':' ∉ portStr.toList := by
  simp only [show ":" = String.singleton ':' from rfl, ← Text.split_eq_pair, rpcPath]
  split
  · next h' portStr h =>
    simp only [h, List.cons.injEq, and_true]
    rcases hport : Decimal.unsigned 65535 portStr with e | n
    · simp [hport]
    · simp [hport, eq_comm, and_comm]
  · next h =>
    simp only [result_bind_eq_ok, result_fail, reduceCtorEq, and_false, exists_false, false_iff,
      not_exists, not_and]
    intro portStr _ hsplit
    exact h host portStr hsplit

theorem parseNetwork_ok {arg : Option String} {network : Network} :
    (parseNetwork arg).result = .ok network ↔
      (arg = none ∧ network = .testnet) ∨ ∃ net, arg = some net ∧ net ∈ network.names := by
  unfold parseNetwork
  split
  case h_1 => cases network <;> simp [Network.names]
  case h_2 => cases network <;> simp [Network.names]
  case h_3 => cases network <;> simp [Network.names]
  case h_4 net h₁ h₂ h₃ => cases network <;> simp_all [Network.names]
  case h_5 => cases network <;> simp [Network.names]

theorem announcedListenAddr_ok {args : List String} {addrs : List SocketAddress} :
    (announcedListenAddr E args).result = .ok addrs ↔ args.map E.socketAddress = addrs.map some := by
  induction args generalizing addrs with
  | nil => cases addrs <;> simp [announcedListenAddr]
  | cons arg args ih =>
    rw [announcedListenAddr]
    rcases haddr : E.socketAddress arg with _ | addr
    · cases addrs <;> simp [haddr]
    · cases addrs with
      | nil => simp
      | cons a as => simp [haddr, ih, and_comm]

theorem required_ok {name value : String} :
    (required E name).result = .ok value ↔ E.var name = some value := by
  unfold required
  rcases E.var name with _ | v <;> simp

theorem cardanoConfig_ok {cardano : Option CardanoRelayConfig} :
    (cardanoConfig E).result = .ok cardano ↔ CardanoSettings E cardano := by
  have hiff : cardanoEnabled E = true ↔
      E.var "CARDANO_ENABLED" = some "1" ∨ E.var "CARDANO_ENABLED" = some "true" := by
    simp only [cardanoEnabled, Bool.or_eq_true, decide_eq_true_eq]
  unfold cardanoConfig
  split_ifs with henabled
  · have hwarn : ∀ url, (warnLocalhost url).result = .ok () := by
      intro url
      unfold warnLocalhost
      split_ifs <;> rfl
    simp only [result_bind_eq_ok, required_ok, hwarn, result_pure]
    constructor
    · rintro ⟨_, h₁, _, h₂, _, h₃, _, h₄, _, h₅, _, h₆, _, h₇, _, -, h⟩
      obtain rfl := Except.ok.inj h
      exact ⟨hiff.1 henabled, h₁, h₂, h₃, h₄, h₅, h₆, h₇, rfl, rfl⟩
    · intro h
      rcases cardano with _ | c
      · exact absurd (hiff.1 henabled) (not_or.2 h)
      · obtain ⟨-, h₁, h₂, h₃, h₄, h₅, h₆, h₇, hurl, hkey⟩ := h
        refine ⟨_, h₁, _, h₂, _, h₃, _, h₄, _, h₅, _, h₆, _, h₇, (), trivial, ?_⟩
        rw [← hurl, ← hkey]
  · rw [hiff] at henabled
    rcases cardano with _ | c
    · exact iff_of_true rfl (not_or.1 henabled)
    · exact iff_of_false nofun fun h => henabled h.1

/-! ### Credentials that are found -/

/-- The result is one, or `Err(())`. -/
def NoPanic {α : Type} (x : Console α) : Prop := ∀ m, x.result ≠ .error (.panic m)

theorem noPanic_parseRpcAuth (text : String) : NoPanic (parseRpcAuth text) := by
  intro m
  unfold parseRpcAuth
  split
  · exact nofun
  · exact fun h => by cases h

theorem noPanic_envPairs (pairs : List (String × String)) (lines : List String) :
    NoPanic (envPairs pairs lines) := by
  induction lines generalizing pairs with
  | nil => exact nofun
  | cons line lines ih =>
    rw [envPairs]
    rcases Text.splitOnce '=' line with _ | pair
    · exact fun m h => by cases h
    · exact ih _

theorem noPanic_getRpcAuthFromEnvFile : NoPanic (getRpcAuthFromEnvFile E) := by
  intro m h
  have hparse : NoPanic (parseEnvFile E) := by
    unfold parseEnvFile
    rcases E.readToString [".env"] with _ | contents
    · exact fun m h => by cases h
    · exact noPanic_envPairs _ _
  change ((parseEnvFile E).bind _).result = _ at h
  rcases hr : (parseEnvFile E).result with e | pairs
  · simp only [Console.bind, hr] at h
    obtain rfl := Except.error.inj h
    exact hparse m hr
  · simp only [Console.bind, hr] at h
    split at h <;> cases h

theorem noPanic_getRpcAuthFromCookie (network : Network) : NoPanic (getRpcAuthFromCookie E network) := by
  unfold getRpcAuthFromCookie
  rcases (getCookiePath E network).bind E.readToString with _ | contents
  · exact fun m h => by cases h
  · exact noPanic_parseRpcAuth _

theorem attempt_result {α : Type} {x : Console α} (h : NoPanic x) :
    (attempt x).result = .ok x.result.toOption := by
  rcases hx : x.result with (_ | m) | a
  · simp [attempt, hx, Except.toOption]
  · exact absurd hx (h m)
  · simp [attempt, hx, Except.toOption]

theorem getRpcAuthFromEnvVars_eq {username password : String} :
    getRpcAuthFromEnvVars E = some (username, password) ↔ VarsText E username password := by
  unfold getRpcAuthFromEnvVars VarsText bitcoindRpcUserKey bitcoindRpcPasswordKey
  rcases E.var "RPC_USER" with _ | u <;> rcases E.var "RPC_PASSWORD" with _ | p <;> simp

/-- The lines of a `.env` file, read from the first one. -/
theorem envPairs_ok {acc out : List (String × String)} {lines : List String} :
    (envPairs acc lines).result = .ok out ↔ ∃ pairs : List (String × String),
      lines = pairs.map (fun p => p.1 ++ "=" ++ p.2) ∧ (∀ p ∈ pairs, '=' ∉ p.1.toList) ∧
        out = pairs.reverse ++ acc := by
  induction lines generalizing acc with
  | nil =>
    constructor
    · intro h
      exact ⟨[], rfl, nofun, (Except.ok.inj h).symm⟩
    · rintro ⟨pairs, hmap, -, rfl⟩
      rw [List.map_eq_nil_iff.1 hmap.symm]
      rfl
  | cons line lines ih =>
    rw [envPairs]
    constructor
    · intro h
      rcases hsplit : Text.splitOnce '=' line with _ | ⟨key, value⟩ <;> rw [hsplit] at h
      · cases h
      · obtain ⟨pairs, rfl, hkeys, rfl⟩ := ih.1 h
        obtain ⟨rfl, hkey⟩ := Text.splitOnce_eq_some.1 hsplit
        refine ⟨(key, value) :: pairs, rfl, List.forall_mem_cons.2 ⟨hkey, hkeys⟩, ?_⟩
        rw [List.reverse_cons, List.append_assoc]
        rfl
    · rintro ⟨_ | ⟨⟨key, value⟩, pairs⟩, hmap, hkeys, rfl⟩
      · cases hmap
      · obtain ⟨rfl, rfl⟩ := List.cons.inj hmap
        obtain ⟨hkey, hkeys⟩ := List.forall_mem_cons.1 hkeys
        have hsplit : Text.splitOnce '=' (key ++ "=" ++ value) = some (key, value) :=
          Text.splitOnce_eq_some.2 ⟨rfl, hkey⟩
        beta_reduce
        rw [hsplit]
        refine ih.2 ⟨pairs, rfl, hkeys, ?_⟩
        rw [List.reverse_cons, List.append_assoc]
        rfl

/-- A map that is filled in order keeps the last value of a key. -/
theorem lookup_reverse {pairs : List (String × String)} {key value : String} :
    pairs.reverse.lookup key = some value ↔ LastValue pairs key value := by
  rw [List.lookup_eq_some_iff]
  constructor
  · rintro ⟨l₁, l₂, heq, hne⟩
    refine ⟨l₂.reverse, l₁.reverse, ?_, fun p hp => ?_⟩
    · rw [← List.reverse_reverse pairs, heq]
      simp
    · exact fun h => (beq_iff_eq.ne.1 (by simpa using hne p (List.mem_reverse.1 hp))) h.symm
  · rintro ⟨before, after, rfl, hne⟩
    refine ⟨after.reverse, before.reverse, by simp, fun p hp => ?_⟩
    simpa using (hne p (List.mem_reverse.1 hp)).symm

theorem getRpcAuthFromEnvFile_ok {username password : String} :
    (getRpcAuthFromEnvFile E).result = .ok (username, password) ↔ EnvFileText E username password := by
  rw [getRpcAuthFromEnvFile, result_bind_eq_ok]
  unfold parseEnvFile
  constructor
  · rintro ⟨out, hout, h⟩
    rcases hread : E.readToString [".env"] with _ | contents <;> rw [hread] at hout
    · cases hout
    obtain ⟨pairs, hlines, hkeys, rfl⟩ := envPairs_ok.1 hout
    rw [List.append_nil] at h
    split at h
    · next u p hu hp =>
      obtain ⟨rfl, rfl⟩ := Prod.mk.inj (Except.ok.inj h)
      exact ⟨contents, pairs, hread, hlines, hkeys, lookup_reverse.1 hu, lookup_reverse.1 hp⟩
    · cases h
  · rintro ⟨contents, pairs, hread, hlines, hkeys, hu, hp⟩
    rw [hread]
    refine ⟨pairs.reverse ++ [], envPairs_ok.2 ⟨pairs, hlines, hkeys, rfl⟩, ?_⟩
    rw [List.append_nil, show pairs.reverse.lookup bitcoindRpcUserKey = some username from
      lookup_reverse.2 hu, show pairs.reverse.lookup bitcoindRpcPasswordKey = some password from
      lookup_reverse.2 hp]
    rfl

theorem getRpcAuthFromCookie_ok {network : Network} {username password : String} :
    (getRpcAuthFromCookie E network).result = .ok (username, password) ↔
      CookieText E network username password := by
  have hpath : getCookiePath E network = E.homeDir.map (· :: cookieFile network) := by
    cases network <;> rfl
  rw [getRpcAuthFromCookie, hpath, CookieText]
  rcases hhome : E.homeDir with _ | home
  · exact iff_of_false nofun fun ⟨_, h, _⟩ => nomatch h
  rw [Option.map_some, Option.bind_some]
  rcases hread : E.readToString (home :: cookieFile network) with _ | contents
  · refine iff_of_false nofun ?_
    rintro ⟨_, ⟨⟩, h, -⟩
    rw [hread] at h
    cases h
  · refine parseRpcAuth_ok.trans ⟨fun ⟨htext, hu, hp⟩ => ⟨home, rfl, by rw [hread, htext], hu, hp⟩, ?_⟩
    rintro ⟨_, ⟨⟩, h, hu, hp⟩
    exact ⟨Option.some.inj (hread.symm.trans h), hu, hp⟩

/-- A source is asked where those before it fail. -/
theorem defaultRpcAuth_eq_ok {network : Network} {x : String × String} :
    (defaultRpcAuth E network).result = .ok x ↔ getRpcAuthFromEnvVars E = some x ∨
      (∀ y, getRpcAuthFromEnvVars E ≠ some y) ∧ ((getRpcAuthFromEnvFile E).result = .ok x ∨
        (∀ y, (getRpcAuthFromEnvFile E).result ≠ .ok y) ∧
          (getRpcAuthFromCookie E network).result = .ok x) := by
  have hhelp : (printRpcAuthHelp E).result = .ok () := rfl
  simp only [defaultRpcAuth, result_bind_eq_ok, attempt_result noPanic_getRpcAuthFromEnvFile,
    attempt_result (noPanic_getRpcAuthFromCookie network), result_println, hhelp, Except.ok.injEq,
    exists_eq_left', true_and, exists_const]
  rcases getRpcAuthFromEnvVars E with _ | y
  · rcases (getRpcAuthFromEnvFile E).result with e | y
    · rcases (getRpcAuthFromCookie E network).result with e' | y
      · change Except.error _ = Except.ok x ↔ _
        simp
      · change Except.ok y = Except.ok x ↔ _
        simp
    · change Except.ok y = Except.ok x ↔ _
      simp
  · change Except.ok y = Except.ok x ↔ _
    simp

/-- Where the first argument has no credentials, those of the first complete source are used. -/
theorem defaultRpcAuth_ok {network : Network} {username password : String} :
    (defaultRpcAuth E network).result = .ok (username, password) ↔
      FirstSource E network username password := by
  rw [defaultRpcAuth_eq_ok]
  simp only [Prod.forall, ne_eq, getRpcAuthFromEnvVars_eq, getRpcAuthFromEnvFile_ok,
    getRpcAuthFromCookie_ok]
  constructor
  · rintro (h | ⟨hvars, h | ⟨hfile, h⟩⟩)
    exacts [.vars h, .file hvars h, .cookie hvars hfile h]
  · rintro (h | ⟨hvars, h⟩ | ⟨hvars, hfile, h⟩)
    exacts [Or.inl h, Or.inr ⟨hvars, Or.inl h⟩, Or.inr ⟨hvars, Or.inr ⟨hfile, h⟩⟩]

/-! ### The parts of the arguments -/

theorem rpcText_iff {text : String} : RpcText E info text ↔
    (rpcPath (((Text.rsplitOnce '@' text).map Prod.snd).getD text)).result =
        .ok (info.bitcoindRpcHost, info.bitcoindRpcPort) ∧
      (rpcAuth E info.network ((Text.rsplitOnce '@' text).map Prod.fst)).result =
        .ok (info.bitcoindRpcUsername, info.bitcoindRpcPassword) := by
  have hat : ∀ {host portStr : String}, '@' ∉ (host ++ ":" ++ portStr).toList ↔
      '@' ∉ host.toList ∧ '@' ∉ portStr.toList := by
    intro host portStr
    simp
  constructor
  · rintro ⟨portStr, hport, hhost, hstr, hhost', hstr', ⟨rfl, huser, hpass⟩ | ⟨rfl, hfound⟩⟩
    · have hsplit : Text.rsplitOnce '@' (info.bitcoindRpcUsername ++ ":" ++ info.bitcoindRpcPassword ++
          "@" ++ (info.bitcoindRpcHost ++ ":" ++ portStr)) =
          some (info.bitcoindRpcUsername ++ ":" ++ info.bitcoindRpcPassword,
            info.bitcoindRpcHost ++ ":" ++ portStr) :=
        Text.rsplitOnce_eq_some.2 ⟨rfl, hat.2 ⟨hhost', hstr'⟩⟩
      rw [hsplit]
      exact ⟨rpcPath_ok.2 ⟨portStr, hport, rfl, hhost, hstr⟩, parseRpcAuth_ok.2 ⟨rfl, huser, hpass⟩⟩
    · rw [Text.rsplitOnce_eq_none.2 (hat.2 ⟨hhost', hstr'⟩)]
      exact ⟨rpcPath_ok.2 ⟨portStr, hport, rfl, hhost, hstr⟩, defaultRpcAuth_ok.2 hfound⟩
  · rintro ⟨hpath, hauth⟩
    rcases hsplit : Text.rsplitOnce '@' text with _ | ⟨auth, path⟩
    · rw [hsplit] at hpath hauth
      obtain ⟨portStr, hport, rfl, hhost, hstr⟩ := rpcPath_ok.1 hpath
      obtain ⟨hhost', hstr'⟩ := hat.1 (Text.rsplitOnce_eq_none.1 hsplit)
      exact ⟨portStr, hport, hhost, hstr, hhost', hstr', Or.inr ⟨rfl, defaultRpcAuth_ok.1 hauth⟩⟩
    · rw [hsplit] at hpath hauth
      obtain ⟨htext, hnot⟩ := Text.rsplitOnce_eq_some.1 hsplit
      obtain ⟨portStr, hport, hpath, hhost, hstr⟩ := rpcPath_ok.1 hpath
      obtain ⟨rfl, huser, hpass⟩ := parseRpcAuth_ok.1 hauth
      obtain rfl : path = _ := hpath
      obtain ⟨hhost', hstr'⟩ := hat.1 hnot
      exact ⟨portStr, hport, hhost, hstr, hhost', hstr', Or.inl ⟨htext, huser, hpass⟩⟩

theorem nodeText_iff {args : List String} : NodeText E info args ↔
    (parseNetwork args.head?).result = .ok info.network ∧
      (announcedNodeName args[1]?).result = .ok info.ldkAnnouncedNodeName ∧
      (announcedListenAddr E (args.drop 2)).result = .ok info.ldkAnnouncedListenAddr := by
  rcases args with _ | ⟨net, _ | ⟨name, addrs⟩⟩
  · constructor
    · rintro ⟨hnet, hname, haddr⟩
      exact ⟨parseNetwork_ok.2 (Or.inl ⟨rfl, hnet⟩), congrArg _ hname.symm, congrArg _ haddr.symm⟩
    · rintro ⟨hnet, hname, haddr⟩
      obtain ⟨-, hnet⟩ := (parseNetwork_ok.1 hnet).resolve_right nofun
      exact ⟨hnet, (Except.ok.inj hname).symm, (Except.ok.inj haddr).symm⟩
  · constructor
    · rintro ⟨hnet, hname, haddr⟩
      exact ⟨parseNetwork_ok.2 (Or.inr ⟨net, rfl, hnet⟩), congrArg _ hname.symm, congrArg _ haddr.symm⟩
    · rintro ⟨hnet, hname, haddr⟩
      obtain ⟨_, heq, hnet⟩ := (parseNetwork_ok.1 hnet).resolve_left nofun
      obtain rfl := Option.some.inj heq
      exact ⟨hnet, (Except.ok.inj hname).symm, (Except.ok.inj haddr).symm⟩
  · simp only [NodeText, parseNetwork_ok, announcedNodeName, announcedListenAddr_ok, List.head?_cons,
      List.getElem?_cons_succ, List.getElem?_cons_zero, List.drop_succ_cons, List.drop_zero]
    by_cases hlen : (asBytes name).length > 32
    · have hle : ¬ (asBytes name).length ≤ 32 := by omega
      simp [hlen, hle]
    · have hle : (asBytes name).length ≤ 32 := by omega
      simp [hlen, hle, eq_comm]

theorem portText_iff {args : List String} : PortText E info args ↔
    (peerListeningPort args).1 = info.ldkPeerListeningPort ∧
      NodeText E info (peerListeningPort args).2 := by
  rcases args with _ | ⟨arg, args⟩
  · simp [PortText, peerListeningPort, eq_comm]
  · simp only [PortText, peerListeningPort]
    rcases hport : Decimal.unsigned 65535 arg with e | port
    · simp [hport, eq_comm]
    · simp [hport]

/-! ### What is printed -/

end

end Startup

section

open Startup

/-- The arguments and the environment are accepted just where their text spells settings, and these are
the result. -/
theorem startup_accepts_iff (E : Startup.Environment) (args : List String)
    (info : Startup.LdkUserInfo) :
    (Startup.parseStartupArgs E args).result = .ok info ↔ Startup.Spells E args info := by
  rcases args with _ | ⟨program, _ | ⟨rpcInfo, _ | ⟨storageDir, rest⟩⟩⟩
  · simp [parseStartupArgs, Spells]
  · simp [parseStartupArgs, Spells]
  · simp [parseStartupArgs, Spells]
  simp only [parseStartupArgs, Console.result_bind_eq_ok]
  constructor
  · rintro ⟨path, hpath, network, hnet, auth, hauth, nodeName, hname, listenAddr, haddr, cardano,
      hcardano, h⟩
    obtain rfl := Except.ok.inj h
    exact ⟨program, rpcInfo, rest, rfl, rpcText_iff.2 ⟨hpath, hauth⟩,
      portText_iff.2 ⟨rfl, nodeText_iff.2 ⟨hnet, hname, haddr⟩⟩, cardanoConfig_ok.1 hcardano⟩
  · rintro ⟨_, _, _, heq, hrpc, hport, hcardano⟩
    obtain ⟨rfl, rfl, rfl, rfl⟩ : _ ∧ _ ∧ _ ∧ _ := by simpa only [List.cons.injEq] using heq
    obtain ⟨hpath, hauth⟩ := rpcText_iff.1 hrpc
    obtain ⟨hlisten, hnode⟩ := portText_iff.1 hport
    obtain ⟨hnet, hname, haddr⟩ := nodeText_iff.1 hnode
    refine ⟨_, hpath, _, hnet, _, hauth, _, hname, _, haddr, _, cardanoConfig_ok.2 hcardano, ?_⟩
    rw [hlisten]
    rfl

end

end LightningRelay
