import ComputeContract.Lib.Lowest
import ComputeContract.Market.Auction
import ComputeContract.Market.Teardown

/-!
# The winners

Three programs pick the cheapest of the bids that were queued for an RFP: `runComputeContract`,
the `requestVM` of the browser, and the spindle. The first two compare the costs that they find
in the bid records; the spindle fetches the payloads that the records name, and compares theirs.

* `Submission`, `onBid`: how the bids of an RFP are queued;
* `Fair`: what is said about the winners, for one order of arrival;
* `Plain`: what the bids must be like;
* `fair_iff`: the winners are as they should be, in whatever order the bids come in, exactly when
  the bids are plain.
* `cheapest_iff`: the spindle's winner is a cheapest one in every order exactly when no bid with a
  number for a cost is beside one without.
-/

namespace ComputeContract.Winner

open AssocList Attest Market
open Requester (Ref CollectedBid)

/-! ## The queue -/

/-- A bid that `createSubmitBidHandler` lets through. -/
structure Submission where
  uri : String
  cid : String
  record : RecordMap
  issuerDid : String

abbrev PendingBids := List (String × List CollectedBid)

/-- `pendingBids.get(rfpUri) ?? []` -/
def pendingFor (rfpUri : String) (pending : PendingBids) : List CollectedBid :=
  (pending.lookup rfpUri).getD []

/-- `record.rfp?.uri` -/
def rfpOf (record : RecordMap) (name : String) : Option Value :=
  Auction.prop (Auction.prop (some (.object record)) "rfp") name

/-- The RFP that a bid is queued for; a key that is no text is never asked for. -/
def rfpUriOf (record : RecordMap) : Option String :=
  match rfpOf record "uri" with
  | some (.text rfpUri) => if rfpUri = "" then none else some rfpUri
  | _ => none

def onBid (pending : PendingBids) (sub : Submission) : PendingBids :=
  match rfpUriOf sub.record with
  | none => pending
  | some rfpUri =>
    let queue := pendingFor rfpUri pending
    set rfpUri (queue ++ [⟨sub.issuerDid, sub.uri, sub.cid, sub.record⟩]) pending

/-- The bids for an RFP, after some submissions. -/
def bidsFor (rfpUri : String) (submissions : List Submission) : List CollectedBid :=
  pendingFor rfpUri (submissions.foldl onBid [])

/-! ## The winners -/

/-- What the three have in common: how a cost is read as a number (`Number(v ?? Infinity)`, where
    `⊤` is `NaN`), and the repositories. -/
structure Common (N : Type) where
  number : Option Value → Except String (WithTop N)
  resolvePDS : String → Except String String
  fetch : Auction.GetRecord → Except String Auction.FetchResponse

variable {N : Type} [LinearOrder N] (c : Common N)

def Common.requester (w : Requester.World) : Requester.World :=
  { w with numberLt := belowM c.number }

def Common.spindle (s : Auction.World) : Auction.World :=
  { s with
    numberLt := belowM c.number
    resolvePDS := fun _ => c.resolvePDS
    fetch := fun _ => c.fetch }

section
variable (w : Requester.World) (s : Auction.World)

/-- The winner of `runComputeContract`, if there are bids. -/
def runWinner (bids : List CollectedBid) : Except String (Option CollectedBid) :=
  match bids with
  | [] => .ok none
  | first :: rest => some <$> Requester.pickWinner (c.requester w) first (first :: rest)

/-- The winner of `requestVM`, which picks it in the same way. -/
def requestVMWinner (bidWindowSec : ℕ) (bids : List CollectedBid) : Except String CollectedBid :=
  match bids with
  | [] => .error s!"no bids within {bidWindowSec}s"
  | first :: rest => Requester.pickWinner (c.requester w) first (first :: rest)

/-- A bid as the spindle holds it. -/
def collect (b : CollectedBid) : Auction.CollectedBid :=
  ⟨b.did, b.uri, .text b.cid, b.record, none, none⟩

/-- The winner of the spindle, of the same bids. -/
def spindleWinner (bids : List CollectedBid) : Except String (Option Auction.CollectedBid) :=
  Auction.scoreLowestCost (c.spindle s)
    (Auction.resolveBidPayloads (c.spindle s) (bids.map collect))

/-- `filteredBidderDids` -/
def filteredBidderDids (bidderDids denyBidderDids : List String) : List String :=
  bidderDids.filter (· ∉ denyBidderDids)

/-! ## What is said about them -/

/-- The cost that is written in the bid itself. -/
def quoted (b : CollectedBid) : Except String (WithTop N) := c.number (Requester.costOf b)

/-- A bid with the payload that its record names. -/
def resolved (b : CollectedBid) : Auction.CollectedBid :=
  Auction.resolveBid (c.spindle s) 0 (collect b)

/-- The cost of the payload that the bid names. -/
def cost (b : Auction.CollectedBid) : Except String (WithTop N) := c.number (Auction.costOf b)

variable (rfp : Ref) (bidderDids denyBidderDids : List String)

/-- A bid for the RFP, of a bidder that was found. -/
structure Eligible (b : CollectedBid) : Prop where
  did : b.did ∈ filteredBidderDids bidderDids denyBidderDids
  uri : rfpOf b.record "uri" = some (.text rfp.uri)
  cid : rfpOf b.record "cid" = some (.text rfp.cid)

/-- What is said about the winners of some bids. -/
structure Fair (bids : List CollectedBid) : Prop where
  winner : ∀ win, runWinner c w bids = .ok (some win) →
    Eligible rfp bidderDids denyBidderDids win ∧ win.did ∉ denyBidderDids ∧
      ∀ b ∈ bids, Eligible rfp bidderDids denyBidderDids b →
        valueOf (cost c (resolved c s win)) ≤ valueOf (cost c (resolved c s b))
  agree : ∀ win vm spindle bidWindowSec, runWinner c w bids = .ok (some win) →
    requestVMWinner c w bidWindowSec bids = .ok vm →
    spindleWinner c s bids = .ok (some spindle) →
    valueOf (cost c (resolved c s vm)) = valueOf (cost c (resolved c s win)) ∧
      valueOf (cost c spindle) = valueOf (cost c (resolved c s win))

/-- No other bid is below it by what is written in the bids. -/
def Standing (bids : List CollectedBid) (b : CollectedBid) : Prop :=
  b ∈ bids ∧ ∀ b' ∈ bids, ¬ Below (valueOf (quoted c b')) (valueOf (quoted c b))

/-- The bids that no other is below by what is written in them are eligible and cost least, by
    their payloads; and a bid that another is below is as malformed as these. -/
def Plain (bids : List CollectedBid) : Prop :=
  (∀ b ∈ bids, (quoted c b).isOk) →
    (∀ b, Standing c bids b → Eligible rfp bidderDids denyBidderDids b ∧
      ∀ b' ∈ bids, Eligible rfp bidderDids denyBidderDids b' →
        valueOf (cost c (resolved c s b)) ≤ valueOf (cost c (resolved c s b'))) ∧
    ((∀ b ∈ bids, (cost c (resolved c s b)).isOk) →
      (∀ b, Standing c bids b → ∀ b' ∈ bids,
        ¬ Below (valueOf (cost c (resolved c s b'))) (valueOf (cost c (resolved c s b)))) ∧
      ∀ b ∈ bids, ¬ Standing c bids b → ∀ b', Standing c bids b' → valueOf (quoted c b') ≠ ⊤ →
        (valueOf (cost c (resolved c s b)) = ⊤ ↔ valueOf (cost c (resolved c s b')) = ⊤))

end

/-! ## The queue of an RFP -/

/-- The bid for the RFP that a submission is, if it is one. -/
def bidFor (rfpUri : String) (sub : Submission) : Option CollectedBid :=
  if rfpUriOf sub.record = some rfpUri then
    some ⟨sub.issuerDid, sub.uri, sub.cid, sub.record⟩
  else none

theorem pendingFor_onBid (rfpUri : String) (pending : PendingBids) (sub : Submission) :
    pendingFor rfpUri (onBid pending sub)
      = pendingFor rfpUri pending ++ (bidFor rfpUri sub).toList := by
  rw [onBid, bidFor]
  cases hnamed : rfpUriOf sub.record with
  | none =>
    rw [if_neg (fun heq => by cases heq)]
    exact (List.append_nil _).symm
  | some named =>
    dsimp only
    rw [pendingFor, lookup_set]
    by_cases heq : rfpUri = named
    · rw [if_pos heq, if_pos (congrArg some heq.symm), heq]
      rfl
    · rw [if_neg heq, if_neg fun h => heq (Option.some.inj h).symm]
      exact (List.append_nil _).symm

theorem bidsFor_eq (rfpUri : String) (submissions : List Submission) :
    bidsFor rfpUri submissions = submissions.filterMap (bidFor rfpUri) := by
  have hfold (pending : PendingBids) : pendingFor rfpUri (submissions.foldl onBid pending)
      = pendingFor rfpUri pending ++ submissions.filterMap (bidFor rfpUri) := by
    induction submissions generalizing pending with
    | nil => exact (List.append_nil _).symm
    | cons sub submissions ih =>
      rw [List.foldl_cons, ih, pendingFor_onBid, List.append_assoc, List.filterMap_cons]
      cases bidFor rfpUri sub <;> rfl
  exact hfold []

/-- Every bid of the queue names the RFP. -/
theorem uri_of_mem_bidsFor {rfpUri : String} {submissions : List Submission} {b : CollectedBid}
    (hb : b ∈ bidsFor rfpUri submissions) : rfpOf b.record "uri" = some (.text rfpUri) := by
  rw [bidsFor_eq] at hb
  obtain ⟨sub, -, hsub⟩ := List.mem_filterMap.1 hb
  rw [bidFor] at hsub
  split at hsub
  · next hnamed =>
    cases hsub
    rw [rfpUriOf] at hnamed
    split at hnamed
    · next named huri =>
      split at hnamed
      · cases hnamed
      · cases hnamed
        exact huri
    · cases hnamed
  · cases hsub

/-! ## The winners of a list -/

variable {c} {w : Requester.World} {s : Auction.World} {bids : List CollectedBid}

theorem runWinner_cons (first : CollectedBid) (rest : List CollectedBid) :
    runWinner c w (first :: rest) = some <$> (first :: rest).foldlM (lowerM (belowM (quoted c))) first :=
  rfl

/-- The lowest by what is written in the bids. -/
theorem runWinner_eq {first : CollectedBid} {rest : List CollectedBid}
    (hok : ∀ b ∈ first :: rest, (quoted c b).isOk) : runWinner c w (first :: rest)
      = .ok (some (lowestBy (fun b => valueOf (quoted c b)) first (first :: rest))) := by
  rw [runWinner_cons, foldlM_lowerM (hok first List.mem_cons_self) hok]
  rfl

/-- What `runComputeContract` accepts is the winner of the bids that wait at the end of its window. -/
theorem runWinner_of_complete {opts : Requester.Options} {fuel bidCount : ℕ} {log log' : Requester.Log}
    {vm rfp accept : Ref} {winner : CollectedBid} {receipt : Requester.Receipt} {receiptOk : Bool}
    (h : Requester.runComputeContract (c.requester w) opts fuel log
      = (.ok (.complete vm rfp accept winner receipt receiptOk bidCount), log')) :
    ∃ log, runWinner c w (w.pendingBids log) = .ok (some winner) := by
  rw [Requester.runComputeContract] at h
  obtain ⟨⟨vm', rfp'⟩, log₁, -, h⟩ := Task.bind_eq_ok h
  obtain ⟨bids, log₂, hbids, h⟩ := Task.bind_eq_ok h
  obtain ⟨rfl, rfl⟩ : w.pendingBids log₁ = bids ∧ log₁ = log₂ := by
    cases hbids
    exact ⟨rfl, rfl⟩
  refine ⟨log₁, ?_⟩
  cases hbids : w.pendingBids log₁ with
  | nil =>
    rw [hbids] at h
    cases h
  | cons first rest =>
    rw [hbids] at h
    obtain ⟨picked, log₂, hpicked, h⟩ := Task.bind_eq_ok h
    obtain ⟨hpick, rfl⟩ := Task.ofExcept_eq_ok hpicked
    obtain ⟨now, log₃, -, h⟩ := Task.bind_eq_ok h
    obtain ⟨accept', log₄, -, h⟩ := Task.bind_eq_ok h
    obtain ⟨receipt', log₅, -, h⟩ := Task.bind_eq_ok h
    rw [Requester.finish] at h
    obtain ⟨receiptOk', log₆, -, h⟩ := Task.bind_eq_ok h
    obtain ⟨⟨⟩, log₇, -, h⟩ := Task.bind_eq_ok h
    obtain ⟨⟨⟩, log₈, -, h⟩ := Task.bind_eq_ok h
    cases h
    rw [runWinner, hpick]
    rfl

/-- The bidders that it sends the RFP to were found and are not denied. -/
theorem filtered_of_discoverBidders {opts : Requester.Options} {log log' : Requester.Log}
    {dids : List String} (h : Requester.discoverBidders w opts log = (.ok dids, log')) :
    ∃ bidderDids, dids = filteredBidderDids bidderDids (opts.denyBidderDids.getD []) := by
  rw [Requester.discoverBidders] at h
  obtain ⟨vouched, log₁, -, h⟩ := Task.bind_eq_ok h
  obtain ⟨registry, log₂, -, h⟩ := Task.bind_eq_ok h
  cases h
  exact ⟨_, rfl⟩

theorem resolveBidPayloads_eq (bids : List CollectedBid) :
    Auction.resolveBidPayloads (c.spindle s) (bids.map collect) = bids.map (resolved c s) := by
  have hturn : (fun e : Auction.CollectedBid × ℕ => Auction.resolveBid (c.spindle s) e.2 e.1)
      = Auction.resolveBid (c.spindle s) 0 ∘ Prod.fst := rfl
  rw [Auction.resolveBidPayloads, hturn, ← List.map_map, List.zipIdx_map_fst, List.map_map]
  rfl

theorem spindleWinner_cons (first : CollectedBid) (rest : List CollectedBid) :
    spindleWinner c s (first :: rest)
      = some <$> ((first :: rest).map (resolved c s)).foldlM (lowerM (belowM (cost c)))
        (resolved c s first) := by
  rw [spindleWinner, resolveBidPayloads_eq]
  rfl

/-- The lowest by what is in the payloads. -/
theorem spindleWinner_eq {first : CollectedBid} {rest : List CollectedBid}
    (hok : ∀ b ∈ first :: rest, (cost c (resolved c s b)).isOk) : spindleWinner c s (first :: rest)
      = .ok (some (resolved c s
        (lowestBy (fun b => valueOf (cost c (resolved c s b))) first (first :: rest)))) := by
  rw [spindleWinner_cons, foldlM_lowerM (hok first List.mem_cons_self) (by
    intro b hb
    obtain ⟨b', hb', rfl⟩ := List.mem_map.1 hb
    exact hok b' hb'), lowestBy_map]
  rfl

theorem ok_of_runWinner {win : CollectedBid} (h : runWinner c w bids = .ok (some win)) :
    ∀ b ∈ bids, (quoted c b).isOk := by
  cases bids with
  | nil => cases h
  | cons first rest =>
    rw [runWinner_cons] at h
    cases hfold : (first :: rest).foldlM (lowerM (belowM (quoted c))) first with
    | error e =>
      rw [hfold] at h
      cases h
    | ok best => exact isOk_of_foldlM_lowerM hfold

theorem ok_of_spindleWinner {win : Auction.CollectedBid}
    (h : spindleWinner c s bids = .ok (some win)) :
    ∀ b ∈ bids, (cost c (resolved c s b)).isOk := by
  cases bids with
  | nil => cases h
  | cons first rest =>
    rw [spindleWinner_cons] at h
    cases hfold : ((first :: rest).map (resolved c s)).foldlM (lowerM (belowM (cost c)))
        (resolved c s first) with
    | error e =>
      rw [hfold] at h
      cases h
    | ok best => exact fun b hb => isOk_of_foldlM_lowerM hfold _ (List.mem_map_of_mem hb)

/-- `requestVM` has the same winner. -/
theorem requestVMWinner_of_run {win : CollectedBid} (bidWindowSec : ℕ)
    (hwin : runWinner c w bids = .ok (some win)) :
    requestVMWinner c w bidWindowSec bids = .ok win := by
  cases bids with
  | nil => cases hwin
  | cons first rest =>
    rw [runWinner] at hwin
    rw [requestVMWinner]
    cases hpick : Requester.pickWinner (c.requester w) first (first :: rest) with
    | error e =>
      rw [hpick] at hwin
      cases hwin
    | ok best =>
      rw [hpick] at hwin
      rw [Option.some.inj (Except.ok.inj hwin)]

variable {rfp : Ref} {bidderDids denyBidderDids : List String}

theorem Eligible.not_denied {b : CollectedBid} (h : Eligible rfp bidderDids denyBidderDids b) :
    b.did ∉ denyBidderDids := of_decide_eq_true (List.mem_filter.1 h.did).2

theorem Standing.perm {bids' : List CollectedBid} (h : bids'.Perm bids) {b : CollectedBid} :
    Standing c bids' b ↔ Standing c bids b := by
  rw [Standing, Standing, h.mem_iff]
  exact and_congr_right fun _ => forall_congr' fun b' => by rw [h.mem_iff]

/-- Where a standing bid is not above another by its payload, the lowest by the payloads costs the
    same. -/
theorem agree_of_first {first win : CollectedBid} {rest : List CollectedBid}
    {cost : CollectedBid → WithTop N}
    (hfirst : win = lowestBy (fun b => valueOf (quoted c b)) first (first :: rest))
    (hstanding : Standing c (first :: rest) win)
    (hbelow : ∀ b, Standing c (first :: rest) b → ∀ b' ∈ first :: rest, ¬ Below (cost b') (cost b))
    (hformed : ∀ b ∈ first :: rest, ¬ Standing c (first :: rest) b →
      ∀ b', Standing c (first :: rest) b' → valueOf (quoted c b') ≠ ⊤ →
        (cost b = ⊤ ↔ cost b' = ⊤)) :
    cost (lowestBy cost first (first :: rest)) = cost win := by
  have hmem : lowestBy cost first (first :: rest) ∈ first :: rest := by
    rw [lowestBy_self]
    exact lowestBy_mem first rest
  refine eq_of_not_below (hbelow win hstanding _ hmem) (not_below_lowestBy hstanding.1) ?_
  by_cases hstands : Standing c (first :: rest) first
  · -- The first is the winner.
    have hwin : win = first := by
      rw [hfirst, lowestBy, lowest_of_not hstands.2]
    rw [hwin, lowestBy_eq_top_iff]
  · -- Something is below the first, so that it and the winner have numbers in them.
    have hquoted : valueOf (quoted c first) ≠ ⊤ := fun htop =>
      hstands ⟨List.mem_cons_self, fun b _ hb => hb.2 htop⟩
    have hwin : valueOf (quoted c win) ≠ ⊤ := by
      rw [hfirst]
      exact lowestBy_ne_top (f := fun b => valueOf (quoted c b)) hquoted
    rw [lowestBy_eq_top_iff, hformed first List.mem_cons_self hstands win hstanding hwin]

/-- What is not standing has a number, and so is above a standing bid that has one. -/
theorem below_of_standing {b b' : CollectedBid} (hb : b ∈ bids) (hnot : ¬ Standing c bids b)
    (hb' : Standing c bids b') (hquoted : valueOf (quoted c b') ≠ ⊤) :
    Below (valueOf (quoted c b')) (valueOf (quoted c b)) := by
  have hlower : ∃ b₀ ∈ bids, Below (valueOf (quoted c b₀)) (valueOf (quoted c b)) := by
    by_contra hnone
    exact hnot ⟨hb, fun b₀ hb₀ hbelow => hnone ⟨b₀, hb₀, hbelow⟩⟩
  obtain ⟨b₀, hb₀, hbelow⟩ := hlower
  exact ⟨(le_of_not_below (hb'.2 b₀ hb₀) hquoted).trans_lt hbelow.1, hbelow.2⟩

theorem Plain.perm {bids' : List CollectedBid} (h : bids'.Perm bids)
    (hplain : Plain c s rfp bidderDids denyBidderDids bids) :
    Plain c s rfp bidderDids denyBidderDids bids' := by
  intro hok
  obtain ⟨hleast, hrest⟩ := hplain fun b hb => hok b (h.symm.subset hb)
  refine ⟨fun b hb => ?_, fun hcosts => ?_⟩
  · obtain ⟨heligible, hleast⟩ := hleast b ((Standing.perm h).1 hb)
    exact ⟨heligible, fun b' hb' => hleast b' (h.subset hb')⟩
  · obtain ⟨hbelow, hformed⟩ := hrest fun b hb => hcosts b (h.symm.subset hb)
    exact ⟨fun b hb b' hb' => hbelow b ((Standing.perm h).1 hb) b' (h.subset hb'),
      fun b hb hnot b' hb' => hformed b (h.subset hb) (mt (Standing.perm h).2 hnot) b'
        ((Standing.perm h).1 hb')⟩

/-- Plain bids have winners as they should be. -/
theorem Plain.fair (h : Plain c s rfp bidderDids denyBidderDids bids) :
    Fair c w s rfp bidderDids denyBidderDids bids := by
  cases bids with
  | nil => exact ⟨fun _ hwin => (by cases hwin), fun _ _ _ _ hwin => (by cases hwin)⟩
  | cons first rest =>
    have hwinner {win : CollectedBid} (hwin : runWinner c w (first :: rest) = .ok (some win)) :
        win = lowestBy (fun b => valueOf (quoted c b)) first (first :: rest) ∧
          Standing c (first :: rest) win := by
      rw [runWinner_eq (ok_of_runWinner hwin)] at hwin
      cases hwin
      refine ⟨rfl, ?_, fun b hb => not_below_lowestBy (f := fun b => valueOf (quoted c b)) hb⟩
      rw [lowestBy_self]
      exact lowestBy_mem first rest
    refine ⟨fun win hwin => ?_, fun win vm spindle bidWindowSec hwin hvm hspindle => ?_⟩
    · obtain ⟨-, hstanding⟩ := hwinner hwin
      obtain ⟨heligible, hleast⟩ := (h (ok_of_runWinner hwin)).1 win hstanding
      exact ⟨heligible, heligible.not_denied, hleast⟩
    · rw [requestVMWinner_of_run bidWindowSec hwin] at hvm
      cases hvm
      obtain ⟨hfirst, hstanding⟩ := hwinner hwin
      have hok := ok_of_spindleWinner hspindle
      obtain ⟨hbelow, hformed⟩ := (h (ok_of_runWinner hwin)).2 hok
      rw [spindleWinner_eq hok] at hspindle
      cases hspindle
      refine ⟨rfl, agree_of_first hfirst hstanding hbelow hformed⟩

/-- In every order the winners are as they should be, so the bids are plain. -/
theorem plain_of_fair
    (h : ∀ order : List CollectedBid, order.Perm bids →
      Fair c w s rfp bidderDids denyBidderDids order) :
    Plain c s rfp bidderDids denyBidderDids bids := by
  intro hok
  -- The order is fair to its winner and to that of the spindle.
  have hagree {first : CollectedBid} {rest : List CollectedBid} {win : CollectedBid}
      (hperm : (first :: rest).Perm bids) (hwin : runWinner c w (first :: rest) = .ok (some win))
      (hcosts : ∀ b ∈ bids, (cost c (resolved c s b)).isOk) :=
    ((h _ hperm).agree win win _ 0 hwin (requestVMWinner_of_run 0 hwin)
      (spindleWinner_eq fun b hb => hcosts b (hperm.subset hb))).2
  -- Any standing bid wins when it is the first.
  have hfirst {b : CollectedBid} (hb : Standing c bids b) : ∃ rest, (b :: rest).Perm bids ∧
      runWinner c w (b :: rest) = .ok (some b) := by
    obtain ⟨rest, hperm⟩ := exists_cons_perm hb.1
    refine ⟨rest, hperm, ?_⟩
    rw [runWinner_eq fun b' hb' => hok b' (hperm.subset hb'), lowestBy,
      lowest_of_not fun b' hb' => hb.2 b' (hperm.subset hb')]
  refine ⟨fun b hb => ?_, fun hcosts => ⟨fun b hb b' hb' => ?_, fun b hb hnot b' hb' hquoted => ?_⟩⟩
  · obtain ⟨rest, hperm, hwin⟩ := hfirst hb
    obtain ⟨heligible, -, hleast⟩ := (h _ hperm).winner b hwin
    exact ⟨heligible, fun b' hb' => hleast b' (hperm.symm.subset hb')⟩
  · obtain ⟨rest, hperm, hwin⟩ := hfirst hb
    rw [← hagree hperm hwin hcosts]
    exact not_below_lowestBy (f := fun b => valueOf (cost c (resolved c s b)))
      (hperm.symm.subset hb')
  · -- The standing bid comes second, after the one that is not.
    obtain ⟨rest, hperm⟩ := exists_cons_perm hb
    have hne : b' ≠ b := fun heq => hnot (heq ▸ hb')
    have hmem : b' ∈ rest :=
      (List.mem_cons.1 (hperm.symm.subset hb'.1)).resolve_left hne
    obtain ⟨rest', hperm'⟩ := exists_cons_perm hmem
    have horder : (b :: b' :: rest').Perm bids := (hperm'.cons b).trans hperm
    have hbelow := below_of_standing hb hnot hb' hquoted
    have hwin : runWinner c w (b :: b' :: rest') = .ok (some b') := by
      rw [runWinner_eq fun b hb => hok b (horder.subset hb), lowestBy_self, lowestBy,
        lowest_of_second (r := fun b a => Below (valueOf (quoted c b)) (valueOf (quoted c a)))
          hbelow fun b hb => hb'.2 b
            (horder.subset (List.mem_cons_of_mem _ (List.mem_cons_of_mem _ hb)))]
    rw [← hagree horder hwin hcosts]
    exact (lowestBy_eq_top_iff (f := fun b => valueOf (cost c (resolved c s b)))).symm

theorem fair_iff (c : Common N) (w : Requester.World) (s : Auction.World) (rfp : Ref)
    (bidderDids denyBidderDids : List String) (submissions : List Submission) :
    (∀ order : List Submission, order.Perm submissions →
      Fair c w s rfp bidderDids denyBidderDids (bidsFor rfp.uri order)) ↔
    Plain c s rfp bidderDids denyBidderDids (bidsFor rfp.uri submissions) := by
  constructor
  · intro h
    refine plain_of_fair (w := w) fun bids hbids => ?_
    rw [bidsFor_eq] at hbids
    obtain ⟨order, horder, rfl⟩ := exists_perm_filterMap hbids
    rw [← bidsFor_eq]
    exact h order horder
  · intro h order horder
    rw [bidsFor_eq]
    rw [bidsFor_eq] at h
    exact (h.perm (horder.filterMap _)).fair

/-! ## The spindle, in any order -/

/-- The cost of the bid is a number. -/
def Numeric (c : Common N) (b : Auction.CollectedBid) : Prop := ∃ x : N, cost c b = .ok (x : WithTop N)

/-- What is said about `scoreLowestCost` of some bids: a cheapest bid wins if any has a number for a
    cost, and its cost is the same in every order. -/
structure Cheapest (c : Common N) (s : Auction.World) (bids : List Auction.CollectedBid) : Prop where
  winner : (∃ b ∈ bids, Numeric c b) → ∃ win ∈ bids,
    Auction.scoreLowestCost (c.spindle s) bids = .ok (some win) ∧ Numeric c win ∧
      ∀ b ∈ bids, Numeric c b → valueOf (cost c win) ≤ valueOf (cost c b)
  perm : ∀ order win win', order.Perm bids →
    Auction.scoreLowestCost (c.spindle s) bids = .ok (some win) →
    Auction.scoreLowestCost (c.spindle s) order = .ok (some win') →
      valueOf (cost c win') = valueOf (cost c win)

omit [LinearOrder N] in
theorem Numeric.isOk {b : Auction.CollectedBid} (h : Numeric c b) : (cost c b).isOk := by
  obtain ⟨x, hx⟩ := h
  rw [hx]
  rfl

omit [LinearOrder N] in
theorem numeric_iff {b : Auction.CollectedBid} : Numeric c b ↔ valueOf (cost c b) ≠ ⊤ := by
  rw [Numeric]
  cases hcost : cost c b with
  | error e => exact iff_of_false (fun ⟨_, hx⟩ => by cases hx) fun hne => hne rfl
  | ok v =>
    rw [valueOf, WithTop.ne_top_iff_exists]
    exact exists_congr fun x => ⟨fun h => (Except.ok.inj h).symm, fun h => congrArg _ h.symm⟩

theorem scoreLowestCost_cons (first : Auction.CollectedBid) (rest : List Auction.CollectedBid) :
    Auction.scoreLowestCost (c.spindle s) (first :: rest)
      = some <$> (first :: rest).foldlM (lowerM (belowM (cost c))) first := rfl

/-- The first of the lowest. -/
theorem scoreLowestCost_eq {first : Auction.CollectedBid} {rest : List Auction.CollectedBid}
    (hok : ∀ b ∈ first :: rest, (cost c b).isOk) :
    Auction.scoreLowestCost (c.spindle s) (first :: rest)
      = .ok (some (lowestBy (fun b => valueOf (cost c b)) first (first :: rest))) := by
  rw [scoreLowestCost_cons, foldlM_lowerM (hok first List.mem_cons_self) hok]
  rfl

theorem ok_of_scoreLowestCost {bids : List Auction.CollectedBid} {win : Auction.CollectedBid}
    (h : Auction.scoreLowestCost (c.spindle s) bids = .ok (some win)) :
    ∀ b ∈ bids, (cost c b).isOk := by
  cases bids with
  | nil => cases h
  | cons first rest =>
    rw [scoreLowestCost_cons] at h
    cases hfold : (first :: rest).foldlM (lowerM (belowM (cost c))) first with
    | error e =>
      rw [hfold] at h
      cases h
    | ok best => exact isOk_of_foldlM_lowerM hfold

/-- A winner that nothing is below. -/
theorem not_below_of_scoreLowestCost {bids : List Auction.CollectedBid} {win : Auction.CollectedBid}
    (h : Auction.scoreLowestCost (c.spindle s) bids = .ok (some win)) :
    win ∈ bids ∧ ∀ b ∈ bids, ¬ Below (valueOf (cost c b)) (valueOf (cost c win)) := by
  cases bids with
  | nil => cases h
  | cons first rest =>
    rw [scoreLowestCost_eq (ok_of_scoreLowestCost h)] at h
    obtain rfl := Option.some.inj (Except.ok.inj h)
    refine ⟨?_, fun b hb => not_below_lowestBy (f := fun b => valueOf (cost c b)) hb⟩
    rw [lowestBy_self]
    exact lowestBy_mem first rest

/-- The cheapest bid wins in every order exactly when no number is beside what is none. -/
theorem cheapest_iff (c : Common N) (s : Auction.World) (bids : List Auction.CollectedBid) :
    Cheapest c s bids ↔ ((∃ b ∈ bids, Numeric c b) → ∀ b ∈ bids, Numeric c b) := by
  constructor
  · intro h hsome b hb
    obtain ⟨win, -, hwin, hnumeric, -⟩ := h.winner hsome
    have hok := ok_of_scoreLowestCost hwin
    by_contra hnot
    -- It wins when it comes first.
    obtain ⟨rest, hperm⟩ := exists_cons_perm hb
    have htop : valueOf (cost c b) = ⊤ := not_not.1 (mt numeric_iff.2 hnot)
    have hfirst := scoreLowestCost_eq (s := s) fun b' hb' => hok b' (hperm.subset hb')
    have hsame := h.perm _ _ _ hperm hwin hfirst
    rw [lowestBy_of_top (f := fun b => valueOf (cost c b)) htop, htop] at hsame
    exact numeric_iff.1 hnumeric hsame.symm
  · intro h
    refine ⟨fun hsome => ?_, fun order win win' horder hwin hwin' => ?_⟩
    · have hall := h hsome
      cases bids with
      | nil =>
        obtain ⟨b, hb, -⟩ := hsome
        cases hb
      | cons first rest =>
        have hscore := scoreLowestCost_eq (s := s) fun b hb => (hall b hb).isOk
        obtain ⟨hmem, hbelow⟩ := not_below_of_scoreLowestCost hscore
        exact ⟨_, hmem, hscore, hall _ hmem, fun b hb _ =>
          le_of_not_below (hbelow b hb) (numeric_iff.1 (hall _ hmem))⟩
    · obtain ⟨hmem, hbelow⟩ := not_below_of_scoreLowestCost hwin
      obtain ⟨hmem', hbelow'⟩ := not_below_of_scoreLowestCost hwin'
      refine eq_of_not_below (hbelow win' (horder.subset hmem'))
        (hbelow' win (horder.symm.subset hmem)) ?_
      by_cases hsome : ∃ b ∈ bids, Numeric c b
      · exact iff_of_false (numeric_iff.1 (h hsome _ (horder.subset hmem')))
          (numeric_iff.1 (h hsome _ hmem))
      · have hnone : ∀ b ∈ bids, valueOf (cost c b) = ⊤ := fun b hb =>
          not_not.1 fun hne => hsome ⟨b, hb, numeric_iff.2 hne⟩
        exact iff_of_true (hnone _ (horder.subset hmem')) (hnone _ hmem)

/-! ## Winners that are not -/

/-- Costs are integers, or `Infinity`; one bidder asks for less than the others. -/
def sampleCommon : Common (WithTop ℤ) where
  number v := .ok (match v with
    | some (.int cost) => ((cost : WithTop ℤ) : WithTop (WithTop ℤ))
    | none => ((⊤ : WithTop ℤ) : WithTop (WithTop ℤ))
    | _ => ⊤)
  resolvePDS _ := .ok "https://pds.example"
  fetch req := .ok ⟨200, true, "", .ok (.object [("value", .object
    [("$type", .text Auction.BIDS_X402_NSID),
      ("cost", .int (if req.repo = "did:plc:cheap" then 10 else 20))])])⟩

def sampleRfp : Ref := ⟨"at://did:plc:alice/com.publicdomainrelay.temp.market.rfp/1", "bafyrfp"⟩

/-- A bid whose payload is named by a strong ref. -/
def sampleSubmission (did : String) : Submission where
  uri := s!"at://{did}/{Auction.BID_NSID}/1"
  cid := "bafybid"
  record := [("rfp", sampleRfp.strongRef),
    ("payload", Ref.strongRef ⟨s!"at://{did}/{Auction.BIDS_X402_NSID}/1", "bafypayload"⟩)]
  issuerDid := did

/-- The bid that a submission is. -/
def sampleBidOf (did : String) : CollectedBid :=
  ⟨did, (sampleSubmission did).uri, "bafybid", (sampleSubmission did).record⟩

theorem cost_dear : cost sampleCommon (resolved sampleCommon Auction.sampleWorld
    (sampleBidOf "did:plc:dear")) = .ok (((20 : ℤ) : WithTop ℤ) : WithTop (WithTop ℤ)) := by
  rfl

theorem cost_cheap : cost sampleCommon (resolved sampleCommon Auction.sampleWorld
    (sampleBidOf "did:plc:cheap")) = .ok (((10 : ℤ) : WithTop ℤ) : WithTop (WithTop ℤ)) := by
  rfl

/-- The first bid wins though the second costs less; and so does one of a bidder that is denied. -/
theorem not_fair :
    (¬ ∀ order : List Submission,
      order.Perm [sampleSubmission "did:plc:dear", sampleSubmission "did:plc:cheap"] →
      Fair sampleCommon (Requester.sampleWorld .running .running) Auction.sampleWorld sampleRfp
        ["did:plc:dear", "did:plc:cheap"] [] (bidsFor sampleRfp.uri order)) ∧
    ¬ ∀ order : List Submission, order.Perm [sampleSubmission "did:plc:dear"] →
      Fair sampleCommon (Requester.sampleWorld .running .running) Auction.sampleWorld sampleRfp
        ["did:plc:dear"] ["did:plc:dear"] (bidsFor sampleRfp.uri order) := by
  constructor
  · intro h
    have hwinner := (h _ .rfl).winner (sampleBidOf "did:plc:dear") rfl
    have hle := hwinner.2.2 (sampleBidOf "did:plc:cheap") (List.mem_cons_of_mem _ List.mem_cons_self)
      ⟨by decide, rfl, rfl⟩
    rw [cost_dear, cost_cheap] at hle
    exact absurd hle (by decide)
  · intro h
    have hwinner := (h _ .rfl).winner (sampleBidOf "did:plc:dear") rfl
    exact hwinner.2.1 List.mem_cons_self

/-- A bid whose payload has the cost. -/
def sampleBid (cost : Value) : Auction.CollectedBid :=
  { collect (sampleBidOf "did:plc:dear") with payload := some (.object [("cost", cost)]) }

/-- A cost that is no number wins when it comes first. -/
theorem not_cheapest : ¬ ∀ bids, Cheapest sampleCommon Auction.sampleWorld bids := by
  intro h
  have hnumeric : Numeric sampleCommon (sampleBid (.int 5)) := ⟨((5 : ℤ) : WithTop ℤ), rfl⟩
  obtain ⟨win, -, hwin, hwinner, -⟩ := (h [sampleBid (.text "free"), sampleBid (.int 5)]).winner
    ⟨_, List.mem_cons_of_mem _ List.mem_cons_self, hnumeric⟩
  obtain rfl : sampleBid (.text "free") = win := Option.some.inj (Except.ok.inj hwin)
  exact numeric_iff.1 hwinner rfl

end ComputeContract.Winner
