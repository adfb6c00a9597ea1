import LightningRelay.Async.Onward
import LightningRelay.System

/-!
# A relay on the local devnet

A concrete configuration for the runs that the development exhibits.  The invoices, addresses and
hashes are those of `evidence_ms3/ms3_test_logs.log`; the parsers answer for these texts as the
crates do and refuse every other text.
-/

set_option autoImplicit false

namespace LightningRelay.Devnet

open Async

/-- The invoice of the first offramp of the log, over 50000 msat. -/
def invoice1 : Bolt11Invoice where
  text := "lnbcrt500n1p5mh68ddqqnp4q2sdxxzhcguxzd9feacussve7nwg7f8p2va7z08zwlqnnpjnd3krzpp5f65xadfql0ar0ku0hku0x8x7ffk492xfp303sdd27yu3sy8lkexssp53n2rc55mclwz49g6ysx5aw6ndulzju78s6yxc2kgwj5k7kya855s9qyysgqcqpcxqrrssrzjqd070avfmy7hgf7fqh748er0536sy4wh33r523qc0y6njru2kgqkyqqqqyqqqtgqquqqqqlgqqqqqqqqfqulqjl0yg3v88yl0fv34agjf9qvcynktt9gyjzr8nnfqa6h948mwx5ux2yg6pz3mtlw4klkt8y2m2srkslkwdnre2xtvsf7fln9x78tsqh5tzsv"
  paymentHash := "4ea86eb520fbfa37db8fbdb8f31cde4a6d52a8c90c5f1835aaf1391810ffb64d"
  paymentSecret := "8cd43c529bc7dc2a951a240d4ebb536f3e2973c786886c2ac874a96f589d3d29"
  currency := .regtest
  amountMilliSatoshis := some 50000

/-- The invoice of the second offramp. -/
def invoice2 : Bolt11Invoice where
  text := "lnbcrt500n1p5mh6gpdqqnp4q2sdxxzhcguxzd9feacussve7nwg7f8p2va7z08zwlqnnpjnd3krzpp5zc443dmuulz68na2ap6zjrcxtza4k0qmxusvw2pxeug2jgnszwzssp5az24mdzz73cfds4a6jtkuu65yar23e6zjan76qfe4f3uy4mr6arq9qyysgqcqpcxqrrssrzjqd070avfmy7hgf7fqh748er0536sy4wh33r523qc0y6njru2kgqkyqqqqyqqqtgqquqqqqlgqqqqqqqqfqfrearcya6w56nvq5f8k94nea6lqg24l6vxl2f2mnz3sah053zlkrs7hp6fehawp6jeq3n5d5462dgdn7grpwyj7cdhydcgp8sqn84lgpn787zx"
  paymentHash := "162b58b77ce7c5a3cfaae874290f0658bb5b3c1b3720c72826cf10a922701385"
  paymentSecret := "e8955db442f47096c2bdd4976e73542746a8e7429767ed0139aa63c25763d746"
  currency := .regtest
  amountMilliSatoshis := some 50000

/-- The operator's address. -/
def operatorAddress : String := "addr_test1vpyae4kdpj49sw4g59jtfzxglnyn0kcscfdg8nep0wn9z8cumzm6z"

/-- The user's address and its 5-bit data. -/
def userAddress : String := "addr_test1vzcxl4ejs4tqd5w7yh4p9wgpczl7zt4saegu8kcv7ehu6zsfsvfz4"

def userData : List ℕ :=
  [12, 2, 24, 6, 31, 21, 25, 18, 16, 21, 11, 0, 13, 20, 14, 30, 4, 23, 21, 1, 5, 14, 8, 1, 24, 2,
    31, 30, 2, 11, 21, 16, 29, 25, 8, 28, 7, 22, 24, 12, 30, 25, 23, 28, 26, 2, 16]

/-- The hash of the deposit transaction of the first offramp. -/
def depositTx : String := "db9a16aa8ecd6e5ef86f8adce5bfba175502b167c5fb0decb3ba684462c4fb26"

/-- Regroup 5-bit values to bytes: `acc` holds the last `bits` bits that were read. Left-over bits
must be fewer than five and zero. -/
def regroup : List ℕ → ℕ → ℕ → Except String (List ℕ)
  | [], acc, bits => if bits ≥ 5 || acc ≠ 0 then .error "InvalidPadding" else .ok []
  | v :: vs, acc, bits =>
    let acc := acc * 32 + v
    if bits + 5 ≥ 8 then
      let rest := bits + 5 - 8
      (regroup vs (acc % 2 ^ rest) rest).map (acc / 2 ^ rest :: ·)
    else regroup vs acc (bits + 5)

/-- The relay of the devnet runs. -/
def config : Config where
  bolt11FromStr s :=
    if s = invoice1.text then .ok invoice1
    else if s = invoice2.text then .ok invoice2
    else .error "Bech32Error"
  bech32Decode s :=
    if s = userAddress then .ok ("addr_test", userData) else .error "invalid checksum"
  fromBase32 data := regroup data 0 0
  operatorAddress := operatorAddress
  swapExpiryMs := 3600000
  maxActiveSwaps := 50
  maxActiveOfframps := 50
  rateLimitMax := 10
  rateLimitWindow := 60000
  reconcileOnStartup := false

/-- An invoice with short texts, for runs in which the texts do not matter. -/
def shortInvoice : Bolt11Invoice :=
  { invoice1 with text := "lnbcrt500n1", paymentHash := "4ea86eb5", paymentSecret := "8cd43c52" }

/-- The relay of the devnet, with the short invoice only. -/
def shortConfig : Config :=
  { config with
    bolt11FromStr := fun s => if s = shortInvoice.text then .ok shortInvoice else .error "Bech32Error" }

/-- Answers under which every call succeeds: a transaction is built as `tx`, a new entry gets the
id `id`, a submission returns `hash`, and the on-chain state is `state`. -/
def answers (id : ℤ) (hash : String) (state : ContractState) : Answers where
  operator _ c :=
    match c with
    | .queryState => .ok state
    | .createInvoice _ _ _ _ | .createOfframp _ _ _ _ => .ok (id, "tx")
    | .fulfillInvoice _ _ | .cancelInvoice _ | .fulfillOfframp _ | .cancelOfframp _
    | .sendCbtc _ _ | .withdraw _ => .ok "tx"
    | .submitTx _ => .ok hash
    | .verifyCbtcReceived _ _ => .ok true
  ldk c :=
    match c with
    | .payForBolt11Invoice _ _ => .ok ()
    | .createBolt11Invoice _ _ _ => .ok invoice1
    | .claimFunds _ _ => ()

/-- An on-chain state without entries. -/
def emptyPool : ContractState := ⟨[], [], 1000000⟩

/-- Answers for calls that ask neither for an id nor for the on-chain state. -/
def ok : Answers := answers 1 "h" emptyPool

/-- Answers under which LDK refuses to pay. -/
def refusing : Answers where
  operator := ok.operator
  ldk c :=
    match c with
    | .payForBolt11Invoice _ _ => .error "RouteNotFound"
    | c => ok.ldk c

/-- The answers of an operator that cannot reach the chain. -/
def unreachable : Answers where
  operator _ _ := .error "connection refused"
  ldk := ok.ldk

/-! ## Runs -/

/-- The time of the first start. -/
def startTime : ℤ := 1773922541000

/-- The relay before its first start. -/
def fresh : World := World.fresh config startTime

/-- The state after a sequence of steps that all meet a condition. -/
def after (ok : Sys → Act → Bool) (as : List Act) : Option Sys :=
  (relay config).run ok ((relay config).initial fresh) as

/-- A run that evaluates is one of the relay's runs. -/
theorem reachableBy_of_after (ok : Sys → Act → Bool) (as : List Act) (p : Sys → Bool)
    (h : (after ok as).any p = true) :
    ∃ s, ReachableBy config startTime (fun s a => ok s a = true) s ∧ p s = true :=
  Runtime.exists_reach_of_run h

theorem reachable_of_after (as : List Act) (p : Sys → Bool)
    (h : (after (fun _ _ => true) as).any p = true) :
    ∃ s, Reachable config startTime s ∧ p s = true := by
  obtain ⟨s, hs, hp⟩ := reachableBy_of_after _ as p h
  exact ⟨s, hs.mono fun _ _ _ => trivial, hp⟩

/-- A run that evaluates, seen in its middle and at its end. -/
theorem onwardBy_of_after (ok : Sys → Act → Bool) (as bs : List Act) (p : Sys → Sys → Bool)
    (h : ((after ok as).any fun s => ((relay config).run ok s bs).any (p s)) = true) :
    ∃ s s', ReachableBy config startTime (fun s a => ok s a = true) s ∧
      (relay config).Onward (fun s a => ok s a = true) s s' ∧ p s s' = true :=
  Runtime.exists_onward_of_run h

theorem onward_of_after (as bs : List Act) (p : Sys → Sys → Bool)
    (h : ((after (fun _ _ => true) as).any fun s =>
      ((relay config).run (fun _ _ => true) s bs).any (p s)) = true) :
    ∃ s s', Reachable config startTime s ∧ (relay config).Onward (fun _ _ => True) s s' ∧
      p s s' = true := by
  obtain ⟨s, s', hs, hon, hp⟩ := onwardBy_of_after _ as bs p h
  exact ⟨s, s', hs.mono fun _ _ _ => trivial, hon.mono fun _ _ _ => trivial, hp⟩

/-- The on-chain state with the entry of the first offramp. -/
def pool1 : ContractState :=
  ⟨[], [⟨1, 50, invoice1.paymentHash, "b06fd732855606d1de25ea12b901c0bfe12eb0ee51c3db0cf66fcd0a",
    startTime + 3600000⟩], 1000000⟩

/-- The next `n` operations of a task, all with the answers `a`. -/
def steps (tid n : ℕ) (a : Answers) : List Act := List.replicate n (.task tid a)

/-- The first start, up to the point where the API serves. -/
def boot : List Act := steps 0 7 ok

/-- The request of an offramp, from its arrival to its end, as task `tid`. -/
def offrampRequest (tid : ℕ) (id : ℤ) (invoice : Bolt11Invoice) : List Act :=
  .env (.request (.handleOfframpRequest "127.0.0.1" ⟨invoice.text, 50, userAddress⟩)) ::
    steps tid 7 (answers id "create" emptyPool)

/-- The arrival of the notification of a deposit. -/
def deposit (id : ℤ) (tx : String) : Act :=
  .env (.request (.handleOfframpDeposit "127.0.0.1" ⟨id, tx⟩))

/-- The first offramp is requested, its deposit is verified and its invoice is being paid. -/
def paidRun : List Act :=
  boot ++ offrampRequest 3 1 invoice1 ++ deposit 1 depositTx :: steps 4 11 ok

/-- The payment succeeds and the offramp is completed. -/
def completedRun : List Act :=
  paidRun ++
    .env (.settle 0 (.sent "preimage")) ::
    .env (.deliver (.paymentSent (some invoice1.paymentHash) invoice1.paymentHash "preimage")) ::
    steps 5 4 (answers 1 "h" pool1) ++ steps 6 7 (answers 1 "h" pool1)

/-- The payment fails and the deposit is refunded. -/
def refundedRun : List Act :=
  paidRun ++
    .env (.settle 0 .failed) ::
    .env (.deliver (.paymentFailed invoice1.paymentHash (some invoice1.paymentHash))) ::
    steps 5 3 ok ++ steps 6 8 ok

/-- The on-chain state with the entry of the first swap. -/
def swapPool1 : ContractState :=
  ⟨[⟨1, 50, "b06fd732855606d1de25ea12b901c0bfe12eb0ee51c3db0cf66fcd0a", startTime,
    startTime + 3600000⟩], [], 1000000⟩

/-- The request of a swap, from its arrival to its end, as task `tid`. -/
def swapRequest (tid : ℕ) (id : ℤ) : List Act :=
  .env (.request (.handleSwapRequest "127.0.0.1" ⟨50, userAddress⟩)) ::
    steps tid 11 (answers id "create" emptyPool)

/-- The hand-over of the payment of the first swap. -/
def claimable : Act := .env (.deliver (.paymentClaimable invoice1.paymentHash (some "preimage")))

/-- The first swap is requested and its payment is claimed. -/
def claimedRun : List Act :=
  boot ++ swapRequest 3 1 ++ claimable :: steps 4 1 ok ++
    .env (.deliver (.paymentClaimed invoice1.paymentHash (some "preimage") (some "secret") 50000)) ::
    steps 5 4 ok

/-- The first swap is fulfilled. -/
def fulfilledRun : List Act := claimedRun ++ steps 6 7 (answers 1 "h" swapPool1)

/-- The first swap expires unpaid and the monitor cancels it. -/
def withdrawnRun : List Act :=
  boot ++ swapRequest 3 1 ++ .env (.tick 3600001) :: steps 1 6 ok

end LightningRelay.Devnet
