import PeerHours.Ledger.Conservation
import PeerHours.Library.Rounding

/-!
# The ledger in double precision

The minutes of a transfer have no upper bound, and numbers are doubles. The credit limit and the zero sum keep
every balance of `N` members between the limit and `N - 1` times its opposite, so the additions and the credit
comparisons of the settlements are exact as long as these bounds are. The subtraction under a comparison can
round, but only for a transfer that the limit rejects.
-/

namespace PeerHours.TimebankLedger

open Checked Json KeyedMap Sorting Rounding

/-! ## Rounded arithmetic

The functions that add or subtract minutes, with the rounding of their results as a parameter. -/

section Rounded

variable (round : Int → Int)

/-- `balance + minutes`, rounded. -/
def Balance.addIn (balance : Balance) (minutes : Int) : Balance :=
  match balance with
  | .minutes value => .minutes (round (value + minutes))
  | .text value => .text (value ++ toString minutes)

/-- Applies one posting in rounded arithmetic. -/
def applyPostingIn (balances : Balances) (posting : LedgerPosting) : Balances :=
  setBalance balances posting.memberId
    ((balanceOf balances posting.memberId).addIn round posting.minutes)

/-- Applies postings in rounded arithmetic. -/
def applyPostingsIn (balances : Balances) (postings : List LedgerPosting) : Balances :=
  postings.foldl (applyPostingIn round) balances

/-- Compares the rounded difference with the shared credit boundary. -/
def wouldCrossMinimumBalanceIn (transfer : Transfer) (balances : Balances) (policy : LedgerPolicy) :
    Bool :=
  match balanceOf balances transfer.recipientMemberId with
  | .minutes value => decide (round (value - transfer.minutes) < policy.minimumBalanceMinutes)
  | .text _ => false

/-- Applies one accepted transfer in rounded arithmetic. -/
def acceptTransferIn (state : LedgerState) (transfer : Transfer) : LedgerState :=
  { state with
    acceptedTransfers := state.acceptedTransfers ++ [transfer]
    postings := state.postings ++ derivePostings transfer
    balances := applyPostingsIn round state.balances (derivePostings transfer) }

/-- Accepts or rejects one ordinary settlement in rounded arithmetic. -/
def settleTransferIn (policy : LedgerPolicy) (state : LedgerState) (transfer : Transfer) :
    LedgerState :=
  if transfer.reversesTransferId.isSome then state
  else if wouldCrossMinimumBalanceIn round transfer state.balances policy then
    rejectTransfer .minimumBalance state transfer
  else acceptTransferIn round state transfer

/-- Accepts pending reversals in rounds, in rounded arithmetic. -/
def applyReversalsIn (pendingReversals : List Transfer) (state : LedgerState) : LedgerState :=
  if pendingReversals = [] then state
  else
    let accepted := acceptedReversals state.acceptedTransferIds pendingReversals
    let next := accepted.foldl (acceptTransferIn round) state
    let stillPending := nextPendingReversals state.acceptedTransferIds pendingReversals
    if _haccepted : accepted = [] then
      stillPending.foldl (rejectTransfer .unacceptedReversal) next
    else applyReversalsIn stillPending next
termination_by pendingReversals.length
decreasing_by exact length_nextPendingReversals _haccepted

/-- Accepts settlements in the order given, then reversals in rounds, in rounded arithmetic. -/
def resolveTransfersIn (policy : LedgerPolicy) (transfers : List Transfer) : LedgerState :=
  applyReversalsIn round (transfers.filter (·.reversesTransferId.isSome))
    (transfers.foldl (settleTransferIn round policy) .empty)

/-- Derives the ledger in rounded arithmetic. -/
def applyTransfersIn (localeCompare : String → String → Ordering) (communityId : String)
    (inputTransfers : List JsonValue) (verifyAttestation : SignatureVerifier) :
    Except String Ledger := do
  let _ ← assertPresent (some (.str communityId)) "Community id"
  let policy ← normalizeLedgerPolicy defaultPeerHoursLedgerPolicy
  let transfersById ← collectTransfers communityId verifyAttestation inputTransfers
  let transfers := sortBy (on localeCompare (·.id)) transfersById
  assertUniqueSettlements [] transfers
  checkAll (assertValidReversal transfersById) transfers
  let state := resolveTransfersIn round policy transfers
  pure
    { communityId := communityId
      transfers := sortBy (on localeCompare (·.id)) state.acceptedTransfers
      rejectedTransfers := state.rejectedTransfers
      postings := state.postings
      balances := state.balances }

/-! ### Rounds -/

variable {round}

theorem applyReversalsIn_stop {pending : List Transfer} {state : LedgerState}
    (h : acceptedReversals state.acceptedTransferIds pending = []) :
    applyReversalsIn round pending state =
      pending.foldl (rejectTransfer .unacceptedReversal) state := by
  rw [applyReversalsIn]
  split
  · rename_i hpending
    rw [hpending, List.foldl_nil]
  · have hnext : nextPendingReversals state.acceptedTransferIds pending = pending :=
      List.filter_eq_self.mpr fun reversal hreversal ↦ by
        simpa using List.filter_eq_nil_iff.mp h reversal hreversal
    dsimp only
    rw [dif_pos h, h, hnext, List.foldl_nil]

theorem applyReversalsIn_round {pending : List Transfer} {state : LedgerState}
    (h : acceptedReversals state.acceptedTransferIds pending ≠ []) :
    applyReversalsIn round pending state =
      applyReversalsIn round (nextPendingReversals state.acceptedTransferIds pending)
        ((acceptedReversals state.acceptedTransferIds pending).foldl (acceptTransferIn round) state) := by
  have hpending : pending ≠ [] := by
    rintro rfl
    exact h rfl
  rw [applyReversalsIn, if_neg hpending]
  dsimp only
  rw [dif_neg h]

end Rounded

/-! ### No rounding -/

theorem applyPostingIn_id : applyPostingIn id = applyPosting := by
  funext balances posting
  unfold applyPostingIn applyPosting
  cases balanceOf balances posting.memberId with
  | minutes value => rfl
  | text value => rfl

theorem acceptTransferIn_id : acceptTransferIn id = acceptTransfer := by
  funext state transfer
  unfold acceptTransferIn acceptTransfer applyPostingsIn applyPostings
  rw [applyPostingIn_id]

theorem settleTransferIn_id (policy : LedgerPolicy) :
    settleTransferIn id policy = settleTransfer policy := by
  funext state transfer
  have hcompare : wouldCrossMinimumBalanceIn id transfer state.balances policy =
      wouldCrossMinimumBalance transfer state.balances policy := rfl
  unfold settleTransferIn settleTransfer
  rw [hcompare, acceptTransferIn_id]

theorem applyReversalsIn_id (pending : List Transfer) (state : LedgerState) :
    applyReversalsIn id pending state = applyReversals pending state := by
  induction pending, state using rounds_induction with
  | stop pending state hnone => rw [applyReversalsIn_stop hnone, applyReversals_stop hnone]
  | round pending state hsome ih =>
      rw [applyReversalsIn_round hsome, applyReversals_round hsome, acceptTransferIn_id]
      exact ih

/-- Without rounding the ledger is derived as before. -/
theorem applyTransfersIn_id : applyTransfersIn id = applyTransfers := by
  have hresolve : resolveTransfersIn id = resolveTransfers := by
    funext policy transfers
    unfold resolveTransfersIn resolveTransfers
    rw [settleTransferIn_id, applyReversalsIn_id]
  funext localeCompare communityId inputs verifyAttestation
  unfold applyTransfersIn applyTransfers
  rw [hresolve]

/-! ## Bounds -/

/-- Both participants of a transfer are among these members. -/
def Between (members : Finset String) (transfer : Transfer) : Prop :=
  transfer.providerMemberId ∈ members ∧ transfer.recipientMemberId ∈ members

instance (members : Finset String) (transfer : Transfer) : Decidable (Between members transfer) :=
  inferInstanceAs (Decidable (_ ∧ _))

/-- Some postings leave every member between the limit and what the others can owe. -/
def InRange (members : Finset String) (postings : List LedgerPosting) : Prop :=
  ∀ memberId ∈ members, -3000 ≤ postedMinutes postings memberId ∧
    postedMinutes postings memberId ≤ 3000 * ((members.card : Int) - 1)

section Bounds

variable {members : Finset String}

/-- Postings that cancel and keep every member above the limit keep every member below its counterpart. -/
theorem inRange_of_floor {postings : List LedgerPosting}
    (hmembers : ∀ posting ∈ postings, posting.memberId ∈ members)
    (hzero : (postings.map (·.minutes)).sum = 0)
    (hfloor : ∀ memberId, -3000 ≤ postedMinutes postings memberId) : InRange members postings := by
  intro memberId hmem
  refine ⟨hfloor memberId, ?_⟩
  have htotal : ∑ other ∈ members, postedMinutes postings other = 0 := by
    rw [← hzero, ← sum_postedMinutes members.nodup_toList (by simpa using hmembers)]
    exact (Finset.sum_map_toList members _).symm
  have hsplit := Finset.add_sum_erase members (postedMinutes postings) hmem
  have hothers : (members.erase memberId).card • (-3000 : Int) ≤
      ∑ other ∈ members.erase memberId, postedMinutes postings other :=
    Finset.card_nsmul_le_sum _ _ _ fun other _ ↦ hfloor other
  have hcard : 1 ≤ members.card := Finset.card_pos.mpr ⟨memberId, hmem⟩
  rw [Finset.card_erase_of_mem hmem, nsmul_eq_mul, Nat.cast_sub hcard] at hothers
  push_cast at hothers
  omega

variable {settlements : List Transfer}

theorem settled_append (policy : LedgerPolicy) (before : List Transfer) (transfer : Transfer) :
    settled policy (before ++ [transfer]) = settleTransfer policy (settled policy before) transfer := by
  simp [settled]

/-- Settlements that both sides can have, between the members. -/
structure Settles (members : Finset String) (settlements : List Transfer) : Prop where
  ordinary : ∀ transfer ∈ settlements, transfer.reversesTransferId = none
  valid : ∀ transfer ∈ settlements, transfer.Valid
  plain : ∀ transfer ∈ settlements, PlainMembers transfer
  between : ∀ transfer ∈ settlements, Between members transfer

theorem Settles.earlier {before after : List Transfer} (h : Settles members (before ++ after)) :
    Settles members before where
  ordinary transfer hmem := h.ordinary transfer (List.mem_append_left _ hmem)
  valid transfer hmem := h.valid transfer (List.mem_append_left _ hmem)
  plain transfer hmem := h.plain transfer (List.mem_append_left _ hmem)
  between transfer hmem := h.between transfer (List.mem_append_left _ hmem)

/-- Every posting of a pass is to a member that is not named after an inherited property. -/
theorem Settles.posted_between (h : Settles members settlements) :
    ∀ posting ∈ (settled defaultPeerHoursLedgerPolicy settlements).postings,
      posting.memberId ∈ members ∧ inheritedText posting.memberId = none := by
  intro posting hposting
  rw [(posted_settled _ _).postings] at hposting
  obtain ⟨transfer, htransfer, hmem⟩ := List.mem_flatMap.mp hposting
  have hbetween := h.between transfer (mem_settled htransfer)
  have hplain := h.plain transfer (mem_settled htransfer)
  unfold derivePostings at hmem
  cases List.mem_pair.mp hmem with
  | inl hprovider => exact hprovider ▸ ⟨hbetween.1, hplain.1⟩
  | inr hrecipient => exact hrecipient ▸ ⟨hbetween.2, hplain.2⟩

/-- After a pass every member is in range. -/
theorem Settles.inRange (h : Settles members settlements) :
    InRange members (settled defaultPeerHoursLedgerPolicy settlements).postings := by
  refine inRange_of_floor (fun posting hposting ↦ (h.posted_between posting hposting).1) ?_ ?_
  · rw [(posted_settled _ _).postings]
    exact sum_derivePostings _
  · rw [(posted_settled _ _).postings]
    exact floor_settled h.ordinary h.valid h.plain

/-- Between the two postings of a transfer every member is in range as well: its provider has what it will
have, and everyone else what they had. -/
theorem inRange_between {transfer : Transfer} {postings : List LedgerPosting}
    (hdistinct : transfer.providerMemberId ≠ transfer.recipientMemberId)
    (hbefore : InRange members postings)
    (hafter : InRange members (postings ++ derivePostings transfer)) :
    InRange members (postings ++ [⟨transfer.id, transfer.providerMemberId, transfer.minutes⟩]) := by
  intro memberId hmem
  have hold := hbefore memberId hmem
  have hnew := hafter memberId hmem
  rw [postedMinutes_append, postedMinutes_derivePostings] at hnew
  rw [postedMinutes_append, postedMinutes_cons, postedMinutes_nil]
  by_cases hprovider : transfer.providerMemberId = memberId
  · have hother : transfer.recipientMemberId ≠ memberId := fun hsame ↦
      hdistinct (hprovider.trans hsame.symm)
    simp only [if_pos hprovider, if_neg hother] at hnew ⊢
    omega
  · simp only [if_neg hprovider] at hnew ⊢
    omega

/-- A settlement at its turn is rejected or accepted as the limit says. -/
theorem settled_append_cases {before : List Transfer} {transfer : Transfer}
    (hordinary : transfer.reversesTransferId = none) :
    (crosses defaultPeerHoursLedgerPolicy before transfer = true ∧
      settled defaultPeerHoursLedgerPolicy (before ++ [transfer]) =
        rejectTransfer .minimumBalance (settled defaultPeerHoursLedgerPolicy before) transfer) ∨
    (crosses defaultPeerHoursLedgerPolicy before transfer = false ∧
      settled defaultPeerHoursLedgerPolicy (before ++ [transfer]) =
        acceptTransfer (settled defaultPeerHoursLedgerPolicy before) transfer) := by
  rw [settled_append, settleTransfer, hordinary]
  unfold crosses
  cases hcrosses : wouldCrossMinimumBalance transfer
      (settled defaultPeerHoursLedgerPolicy before).balances defaultPeerHoursLedgerPolicy with
  | true => exact Or.inl ⟨rfl, by simp⟩
  | false => exact Or.inr ⟨rfl, by simp⟩

/-- What begins the two postings of a transfer. -/
theorem prefix_derivePostings {transfer : Transfer} {before after : List LedgerPosting}
    (h : derivePostings transfer = before ++ after) :
    before = [] ∨ before = [⟨transfer.id, transfer.providerMemberId, transfer.minutes⟩] ∨
      before = derivePostings transfer := by
  rcases before with _ | ⟨first, _ | ⟨second, rest⟩⟩
  · exact Or.inl rfl
  · simp only [derivePostings, List.cons_append, List.cons.injEq] at h
    exact Or.inr (Or.inl (by rw [h.1]))
  · simp only [derivePostings, List.cons_append, List.cons.injEq, List.nil_eq,
      List.append_eq_nil_iff] at h
    exact Or.inr (Or.inr (by rw [derivePostings, h.1, h.2.1, h.2.2.1]))

/-- At every point of a pass, within a transfer too, every member is in range. -/
theorem Settles.inRange_prefix (h : Settles members settlements) {before after : List LedgerPosting}
    (hsplit : (settled defaultPeerHoursLedgerPolicy settlements).postings = before ++ after) :
    InRange members before := by
  induction settlements using List.reverseRecOn generalizing after with
  | nil =>
      obtain ⟨rfl, -⟩ := List.append_eq_nil_iff.mp hsplit.symm
      exact h.inRange
  | append_singleton earlier transfer ih =>
      have hlast : transfer ∈ earlier ++ [transfer] := by simp
      have hearlier := h.earlier
      have hall := h.inRange
      rcases settled_append_cases (h.ordinary transfer hlast) with ⟨-, hpass⟩ | ⟨-, hpass⟩
      · rw [hpass] at hsplit
        exact ih hearlier hsplit
      · rw [hpass] at hsplit hall
        have hposted : (settled defaultPeerHoursLedgerPolicy earlier).postings ++
            derivePostings transfer = before ++ after := hsplit
        rcases List.append_eq_append_iff.mp hposted with ⟨rest, rfl, hrest⟩ | ⟨rest, hrest, -⟩
        · -- The split is within the two postings of the transfer.
          rcases prefix_derivePostings hrest with rfl | rfl | rfl
          · rw [List.append_nil]
            exact hearlier.inRange
          · exact inRange_between (h.valid transfer hlast).distinct hearlier.inRange hall
          · exact hall
        · exact ih hearlier hrest

/-- A transfer is accepted for at most what its recipient had and could owe. -/
theorem Settles.minutes_le (h : Settles members settlements) {transfer : Transfer}
    (hmem : transfer ∈ (settled defaultPeerHoursLedgerPolicy settlements).acceptedTransfers) :
    transfer.minutes ≤ 3000 * (members.card : Int) := by
  induction settlements using List.reverseRecOn with
  | nil => cases hmem
  | append_singleton earlier last ih =>
      have hlast : last ∈ earlier ++ [last] := by simp
      rcases settled_append_cases (h.ordinary last hlast) with ⟨-, hpass⟩ | ⟨hkeeps, hpass⟩
      · rw [hpass] at hmem
        exact ih h.earlier hmem
      · rw [hpass] at hmem
        cases List.mem_append.mp hmem with
        | inl hearlier => exact ih h.earlier hearlier
        | inr hnew =>
            obtain rfl := List.mem_singleton.mp hnew
            have hlimit := mt (crosses_iff (h.plain _ hlast).2).mpr (ne_true_of_eq_false hkeeps)
            have hrange := (h.earlier.inRange _ (h.between _ hlast).2).2
            rw [(posted_settled _ _).postings] at hrange
            omega

/-- In range, every own property of the balances object is a number in range. -/
theorem balances_inRange {postings : List LedgerPosting}
    (hmembers : ∀ posting ∈ postings,
      posting.memberId ∈ members ∧ inheritedText posting.memberId = none)
    (h : InRange members postings) :
    ∀ entry ∈ applyPostings [] postings, ∃ value, entry.2 = .minutes value ∧ -3000 ≤ value ∧
      value ≤ 3000 * ((members.card : Int) - 1) := by
  rintro ⟨name, balance⟩ hentry
  have hfound := lookup_applyPostings postings name
  rw [(lookup_eq_some_iff (nodup_applyPostings postings)).mpr ⟨hentry, rfl⟩] at hfound
  split at hfound
  · rename_i hown
    obtain ⟨posting, hposting⟩ := List.exists_mem_of_ne_nil _ hown.2
    obtain ⟨hposting, hname⟩ := List.mem_filter.mp hposting
    obtain ⟨hmem, hplain⟩ := hmembers posting hposting
    rw [of_decide_eq_true hname] at hmem hplain
    rw [accumulated_of_plain hplain] at hfound
    exact ⟨_, congrArg Prod.snd (Option.some.inj hfound), h name hmem⟩
  · cases hfound

end Bounds

/-! ## Exact runs -/

section ExactRuns

variable {round : Int → Int} {bound : Int} {members : Finset String} {settlements : List Transfer}

/-- Posting to a member whose minutes stay within the bound is exact. -/
theorem applyPostingIn_eq (hround : ExactUpTo round bound) {postings : List LedgerPosting}
    {posting : LedgerPosting} (hplain : inheritedText posting.memberId = none)
    (hlow : -bound ≤ postedMinutes (postings ++ [posting]) posting.memberId)
    (hhigh : postedMinutes (postings ++ [posting]) posting.memberId ≤ bound) :
    applyPostingIn round (applyPostings [] postings) posting =
      applyPosting (applyPostings [] postings) posting := by
  have hsum : postedMinutes (postings ++ [posting]) posting.memberId =
      postedMinutes postings posting.memberId + posting.minutes := by
    rw [postedMinutes_append, postedMinutes_cons, postedMinutes_nil, if_pos rfl, add_zero]
  rw [hsum] at hlow hhigh
  unfold applyPostingIn applyPosting
  rw [balanceOf_applyPostings _ (ne_proto_of_plain hplain), accumulated_of_plain hplain]
  unfold Balance.addIn Balance.add
  dsimp only
  rw [hround.exact _ hlow hhigh]

/-- At every posting of a pass the addition is exact. -/
theorem Settles.addition (h : Settles members settlements) (hround : ExactUpTo round bound)
    (hbound : 3000 * (members.card : Int) ≤ bound) {before after : List LedgerPosting}
    {posting : LedgerPosting}
    (hsplit : (settled defaultPeerHoursLedgerPolicy settlements).postings =
      before ++ posting :: after) :
    applyPostingIn round (applyPostings [] before) posting =
      applyPosting (applyPostings [] before) posting := by
  obtain ⟨hmem, hplain⟩ := h.posted_between posting (by rw [hsplit]; simp)
  have hcard : 1 ≤ members.card := Finset.card_pos.mpr ⟨_, hmem⟩
  have hbefore : (settled defaultPeerHoursLedgerPolicy settlements).postings =
      (before ++ [posting]) ++ after := by rw [hsplit, List.append_assoc, List.singleton_append]
  obtain ⟨hlow, hhigh⟩ := h.inRange_prefix hbefore posting.memberId hmem
  exact applyPostingIn_eq hround hplain (by omega) (by omega)

/-- What the balances object holds for the recipient of the settlement in turn. -/
theorem Settles.recipient {before after : List Transfer} {transfer : Transfer}
    (h : Settles members (before ++ transfer :: after)) :
    ∃ value, balanceOf (settled defaultPeerHoursLedgerPolicy before).balances
        transfer.recipientMemberId = .minutes value ∧ -3000 ≤ value ∧
      value ≤ 3000 * ((members.card : Int) - 1) := by
  have hmem : transfer ∈ before ++ transfer :: after := by simp
  have hplain := (h.plain transfer hmem).2
  refine ⟨_, ?_, h.earlier.inRange _ (h.between transfer hmem).2⟩
  rw [(posted_settled _ _).balances, balanceOf_applyPostings _ (ne_proto_of_plain hplain),
    accumulated_of_plain hplain]

/-- At every turn of a pass the comparison is exact. -/
theorem Settles.comparison {before after : List Transfer} {transfer : Transfer}
    (h : Settles members (before ++ transfer :: after)) (hround : ExactUpTo round bound)
    (hbound : 3000 * (members.card : Int) ≤ bound) :
    wouldCrossMinimumBalanceIn round transfer (settled defaultPeerHoursLedgerPolicy before).balances
        defaultPeerHoursLedgerPolicy =
      wouldCrossMinimumBalance transfer (settled defaultPeerHoursLedgerPolicy before).balances
        defaultPeerHoursLedgerPolicy := by
  obtain ⟨value, hvalue, -, hhigh⟩ := h.recipient
  have hmem : transfer ∈ before ++ transfer :: after := by simp
  have hpositive : 0 < transfer.minutes := (h.valid transfer hmem).positive
  -- Two members at least take part, so the limit is inside the range.
  have hcard : 1 < members.card := Finset.one_lt_card.mpr ⟨_, (h.between transfer hmem).1, _,
    (h.between transfer hmem).2, (h.valid transfer hmem).distinct⟩
  have hlimit : -bound < -3000 := by omega
  unfold wouldCrossMinimumBalanceIn wouldCrossMinimumBalance
  rw [hvalue]
  exact decide_eq_decide.mpr (hround.lt_iff hlimit (by omega))

/-- A pass in rounded arithmetic is the exact pass. -/
theorem Settles.foldl_settleTransferIn (h : Settles members settlements)
    (hround : ExactUpTo round bound) (hbound : 3000 * (members.card : Int) ≤ bound) :
    settlements.foldl (settleTransferIn round defaultPeerHoursLedgerPolicy) .empty =
      settled defaultPeerHoursLedgerPolicy settlements := by
  induction settlements using List.reverseRecOn with
  | nil => rfl
  | append_singleton earlier transfer ih =>
      have hordinary := h.ordinary transfer (by simp)
      rw [List.foldl_append, ih h.earlier, List.foldl_cons, List.foldl_nil, settleTransferIn,
        h.comparison hround hbound, hordinary]
      rcases @settled_append_cases earlier transfer hordinary with
        ⟨hcrosses, hpass⟩ | ⟨hkeeps, hpass⟩
      · have hcross : wouldCrossMinimumBalance transfer _ _ = true := hcrosses
        rw [hpass, hcross]
        rfl
      · have hkeep : wouldCrossMinimumBalance transfer _ _ = false := hkeeps
        have hpostings : (settled defaultPeerHoursLedgerPolicy (earlier ++ [transfer])).postings =
            (settled defaultPeerHoursLedgerPolicy earlier).postings ++ derivePostings transfer := by
          rw [hpass]
          rfl
        have hfirst := h.addition hround hbound (hpostings.trans rfl)
        have hsecond := h.addition hround hbound (hpostings.trans (List.append_cons _ _ _))
        have hbalances := (posted_settled defaultPeerHoursLedgerPolicy earlier).balances
        rw [hpass, hkeep]
        show acceptTransferIn round _ transfer = acceptTransfer _ transfer
        unfold acceptTransferIn acceptTransfer
        congr 1
        rw [hbalances]
        show applyPostingIn round (applyPostingIn round _ _) _ = applyPosting (applyPosting _ _) _
        rw [hfirst]
        rw [applyPostings, List.foldl_append] at hsecond
        exact hsecond

/-- The pass in rounded arithmetic skips the reversals as well. -/
theorem foldl_settleTransferIn_settlementsOf (policy : LedgerPolicy) (transfers : List Transfer)
    (state : LedgerState) :
    transfers.foldl (settleTransferIn round policy) state =
      (settlementsOf transfers).foldl (settleTransferIn round policy) state := by
  rw [settlementsOf, List.foldl_filter]
  congr 1
  funext state transfer
  unfold settleTransferIn
  cases transfer.reversesTransferId with
  | none => simp
  | some reversed => simp

/-- Rejections are recorded in their order. -/
theorem foldl_rejectTransfer_eq (reason : RejectionReason) (transfers : List Transfer)
    (state : LedgerState) :
    transfers.foldl (rejectTransfer reason) state =
      { state with
        rejectedTransfers := state.rejectedTransfers ++ transfers.map (⟨·, reason⟩) } := by
  induction transfers generalizing state with
  | nil => simp
  | cons transfer rest ih =>
      rw [List.foldl_cons, ih]
      simp [rejectTransfer]

/-- When no reversal is accepted, the first round already accepts none. -/
theorem acceptedReversals_eq_nil {pending : List Transfer} {state : LedgerState}
    (h : ∀ transfer ∈ (applyReversals pending state).acceptedTransfers,
      transfer.reversesTransferId = none) :
    acceptedReversals state.acceptedTransferIds pending = [] := by
  by_contra hsome
  obtain ⟨reversal, hreversal⟩ := List.exists_mem_of_ne_nil _ hsome
  rw [applyReversals_round hsome] at h
  obtain ⟨added, hadded, -⟩ := exists_applyReversals
    (nextPendingReversals state.acceptedTransferIds pending)
    ((acceptedReversals state.acceptedTransferIds pending).foldl acceptTransfer state)
  have hordinary := h reversal (by rw [hadded, foldl_acceptTransfer]; simp [hreversal])
  have haccepted := (List.mem_filter.mp hreversal).2
  unfold reversesAccepted at haccepted
  rw [hordinary] at haccepted
  cases haccepted

/-- Without an accepted reversal the rounds change nothing but the rejections. -/
theorem resolveTransfers_of_ordinary {policy : LedgerPolicy} {transfers : List Transfer}
    (h : ∀ transfer ∈ (resolveTransfers policy transfers).acceptedTransfers,
      transfer.reversesTransferId = none) :
    (resolveTransfers policy transfers).postings = (settled policy (settlementsOf transfers)).postings ∧
      (resolveTransfers policy transfers).acceptedTransfers =
        (settled policy (settlementsOf transfers)).acceptedTransfers := by
  have hnone := acceptedReversals_eq_nil h
  unfold resolveTransfers settled
  rw [applyReversals_stop hnone, foldl_rejectTransfer_eq, foldl_settleTransfer]
  exact ⟨rfl, rfl⟩

/-- Without an accepted reversal resolving in rounded arithmetic is exact. -/
theorem resolveTransfersIn_eq {transfers : List Transfer}
    (h : Settles members (settlementsOf transfers)) (hround : ExactUpTo round bound)
    (hbound : 3000 * (members.card : Int) ≤ bound)
    (hordinary : ∀ transfer ∈
        (resolveTransfers defaultPeerHoursLedgerPolicy transfers).acceptedTransfers,
      transfer.reversesTransferId = none) :
    resolveTransfersIn round defaultPeerHoursLedgerPolicy transfers =
      resolveTransfers defaultPeerHoursLedgerPolicy transfers := by
  have hnone := acceptedReversals_eq_nil hordinary
  have hpass : transfers.foldl (settleTransferIn round defaultPeerHoursLedgerPolicy) .empty =
      transfers.foldl (settleTransfer defaultPeerHoursLedgerPolicy) .empty := by
    rw [foldl_settleTransferIn_settlementsOf, h.foldl_settleTransferIn hround hbound,
      foldl_settleTransfer]
    rfl
  unfold resolveTransfersIn resolveTransfers
  rw [hpass, applyReversalsIn_stop hnone, applyReversals_stop hnone]

end ExactRuns

/-! ## Outcome -/

/-- What keeps the arithmetic of a ledger exact: the minutes that it accepts and the balances that it goes
through are bounded by the number of members. -/
structure Bounded (members : Finset String) (ledger : Ledger) : Prop where
  minutes : ∀ transfer ∈ ledger.transfers, transfer.minutes ≤ 3000 * (members.card : Int)
  balances : ledger.balances = applyPostings [] ledger.postings
  intermediate : ∀ before after, ledger.postings = before ++ after →
    ∀ entry ∈ applyPostings [] before, ∃ value, entry.2 = .minutes value ∧ -3000 ≤ value ∧
      value ≤ 3000 * ((members.card : Int) - 1)

/-- What a rounding leaves alone in the pass over some settlements: the additions of the ledger's postings, the
comparisons at each settlement's turn, and the differences compared as long as these are in its range. -/
structure ExactPass (round : Int → Int) (bound : Int) (settlements : List Transfer)
    (ledger : Ledger) : Prop where
  additions : ∀ before posting after, ledger.postings = before ++ posting :: after →
    applyPostingIn round (applyPostings [] before) posting =
      applyPosting (applyPostings [] before) posting
  comparisons : ∀ before transfer after, settlements = before ++ transfer :: after →
    wouldCrossMinimumBalanceIn round transfer (settled defaultPeerHoursLedgerPolicy before).balances
        defaultPeerHoursLedgerPolicy =
      wouldCrossMinimumBalance transfer (settled defaultPeerHoursLedgerPolicy before).balances
        defaultPeerHoursLedgerPolicy
  differences : ∀ before transfer after, settlements = before ++ transfer :: after →
    ∃ value, balanceOf (settled defaultPeerHoursLedgerPolicy before).balances
        transfer.recipientMemberId = .minutes value ∧
      (-bound ≤ value - transfer.minutes →
        round (value - transfer.minutes) = value - transfer.minutes)

/-- The bound within which doubles are exact. -/
theorem exactUpTo_double : ExactUpTo (round doublePrecision) (2 ^ 53) :=
  exactUpTo_round (by decide)

/-- The credit rule bounds what is accepted and what is owed by the number of members. While these bounds are
exact in doubles, so are all additions, all comparisons, and every difference that a comparison does not
reject outright; so deriving the ledger in doubles gives the same ledger. -/
theorem applyTransfers_exact {localeCompare : String → String → Ordering} {communityId : String}
    {inputs : List JsonValue} {verifyAttestation : SignatureVerifier} {ledger : Ledger}
    {members : Finset String}
    (h : applyTransfers localeCompare communityId inputs verifyAttestation = .ok ledger)
    (hmembers : ∀ transfer, Admitted communityId verifyAttestation inputs transfer →
      Between members transfer)
    (hplain : ∀ transfer, Admitted communityId verifyAttestation inputs transfer →
      PlainMembers transfer)
    (hordinary : ∀ transfer ∈ ledger.transfers, transfer.reversesTransferId = none) :
    Bounded members ledger ∧
    (3000 * (members.card : Int) ≤ 2 ^ 53 → ∃ transfersById,
      collectTransfers communityId verifyAttestation inputs = .ok transfersById ∧
      ExactPass (round doublePrecision) (2 ^ 53)
        (settlementsOf (sortBy (on localeCompare (·.id)) transfersById)) ledger ∧
      applyTransfersIn (round doublePrecision) localeCompare communityId inputs verifyAttestation =
        .ok ledger) := by
  obtain ⟨hblank, transfersById, hcollect, hunique, hreversals, rfl⟩ := applyTransfers_eq_ok.mp h
  have hdet := determines_transfers communityId verifyAttestation
  set transfers := sortBy (on localeCompare (·.id)) transfersById with htransfers
  have hread : ∀ transfer ∈ settlementsOf transfers,
      Admitted communityId verifyAttestation inputs transfer := by
    intro transfer htransfer
    have hmem := mem_sortBy.mp (List.mem_filter.mp htransfer).1
    obtain ⟨input, hinput, hread⟩ := (mem_collect hdet hcollect transfer).mp hmem
    exact ⟨input, hinput, readTransfer_eq_ok.mp hread⟩
  have hsettles : Settles members (settlementsOf transfers) :=
    { ordinary := fun transfer hmem ↦ Option.isNone_iff_eq_none.mp (List.mem_filter.mp hmem).2
      valid := fun transfer hmem ↦ by
        obtain ⟨_, -, hadmits⟩ := hread transfer hmem
        exact valid_of_createTransfer hadmits.1
      plain := fun transfer hmem ↦ hplain transfer (hread transfer hmem)
      between := fun transfer hmem ↦ hmembers transfer (hread transfer hmem) }
  have haccepted : ∀ transfer ∈
      (resolveTransfers defaultPeerHoursLedgerPolicy transfers).acceptedTransfers,
      transfer.reversesTransferId = none :=
    fun transfer hmem ↦ hordinary transfer (mem_sortBy.mpr hmem)
  obtain ⟨hpostings, hsame⟩ := resolveTransfers_of_ordinary haccepted
  have hledger : (ledgerOf localeCompare communityId transfers).postings =
      (settled defaultPeerHoursLedgerPolicy (settlementsOf transfers)).postings := hpostings
  refine ⟨⟨?_, (posted_resolveTransfers _ _).balances, ?_⟩, fun hbound ↦
    ⟨transfersById, hcollect, ⟨?_, ?_, ?_⟩, ?_⟩⟩
  · intro transfer hmem
    have hmem : transfer ∈ (resolveTransfers _ transfers).acceptedTransfers := mem_sortBy.mp hmem
    rw [hsame] at hmem
    exact hsettles.minutes_le hmem
  · intro before after hsplit
    rw [hledger] at hsplit
    refine balances_inRange (fun posting hposting ↦ hsettles.posted_between posting ?_)
      (hsettles.inRange_prefix hsplit)
    rw [hsplit]
    exact List.mem_append_left _ hposting
  · intro before posting after hsplit
    rw [hledger] at hsplit
    exact hsettles.addition exactUpTo_double hbound hsplit
  · intro before transfer after hsplit
    exact (hsplit ▸ hsettles).comparison exactUpTo_double hbound
  · intro before transfer after hsplit
    obtain ⟨value, hvalue, -, hhigh⟩ := (hsplit ▸ hsettles).recipient
    refine ⟨value, hvalue, fun hlow ↦ exactUpTo_double.exact _ hlow ?_⟩
    have hpositive : 0 < transfer.minutes := (hsettles.valid transfer (by rw [hsplit]; simp)).positive
    omega
  · have hresolve := resolveTransfersIn_eq hsettles exactUpTo_double hbound haccepted
    have hreversals' : checkAll (assertValidReversal transfersById) transfers = .ok () :=
      checkAll_eq_ok.mpr fun transfer hmem ↦ hreversals transfer (mem_sortBy.mp hmem)
    unfold applyTransfersIn
    simp only [bind_eq_ok, assertPresent_eq_ok, normalizeLedgerPolicy_default, pure_eq_ok]
    refine ⟨communityId, ⟨rfl, hblank⟩, _, rfl, transfersById, hcollect, (), hunique, (), hreversals', ?_⟩
    rw [← htransfers, hresolve]
    rfl

/-- A settlement of 2 ^ 60 minutes. -/
def hugeTransfer (id provider recipient proposalId : String) : Transfer :=
  { hourTransfer id provider recipient proposalId with minutes := 2 ^ 60 }

/-- An hour that Ben receives from Ada, and a huge settlement by which she would pay him back. -/
def hourAndHuge : List JsonValue :=
  [(hourTransfer "p/settlement" "ada" "ben" "p").toJson,
    (hugeTransfer "q/settlement" "ben" "ada" "q").toJson]

/-- The transfers read from the sample are ordinary ones between Ada and Ben. -/
theorem admitted_hourAndHuge {transfer : Transfer}
    (h : Admitted "garden" (fun _ _ ↦ .ok true) hourAndHuge transfer) :
    Between {"ada", "ben"} transfer ∧ PlainMembers transfer ∧
      transfer.reversesTransferId = none := by
  obtain ⟨input, hinput, hcreate, -⟩ := h
  have hhour : createTransfer (hourTransfer "p/settlement" "ada" "ben" "p").toJson =
      .ok (hourTransfer "p/settlement" "ada" "ben" "p") := by decide +kernel
  have hhuge : createTransfer (hugeTransfer "q/settlement" "ben" "ada" "q").toJson =
      .ok (hugeTransfer "q/settlement" "ben" "ada" "q") := by decide +kernel
  cases List.mem_pair.mp hinput with
  | inl hfirst =>
      rw [hfirst] at hcreate
      rw [← Except.ok.inj (hhour.symm.trans hcreate)]
      exact ⟨⟨by decide, by decide⟩, by decide, rfl⟩
  | inr hsecond =>
      rw [hsecond] at hcreate
      rw [← Except.ok.inj (hhuge.symm.trans hcreate)]
      exact ⟨⟨by decide, by decide⟩, by decide, rfl⟩

/-- The ledger of an hour and a huge settlement stays exact. -/
theorem applyTransfers_exact_hourAndHuge :
    ∃ ledger, applyTransfers compare "garden" hourAndHuge (fun _ _ ↦ .ok true) = .ok ledger ∧
      Bounded {"ada", "ben"} ledger ∧
      applyTransfersIn (round doublePrecision) compare "garden" hourAndHuge (fun _ _ ↦ .ok true) =
        .ok ledger := by
  have hsucceeds : Succeeds (applyTransfers compare "garden" hourAndHuge (fun _ _ ↦ .ok true)) := by
    decide +kernel
  obtain ⟨ledger, hledger⟩ := hsucceeds
  have hordinary : ∀ transfer ∈ ledger.transfers, transfer.reversesTransferId = none := by
    obtain ⟨transfersById, -, hadmitted, rfl⟩ := ledger_of_applyTransfers hledger
    intro transfer hmem
    have haccounts := (accounts_ledgerOf compare "garden"
      (sortBy (on compare (·.id)) transfersById)).1.subset (List.mem_append_left _ hmem)
    exact (admitted_hourAndHuge ((hadmitted transfer).mp (mem_sortBy.mp haccounts))).2.2
  obtain ⟨hbounded, hexact⟩ := applyTransfers_exact hledger
    (fun _ hadmitted ↦ (admitted_hourAndHuge hadmitted).1)
    (fun _ hadmitted ↦ (admitted_hourAndHuge hadmitted).2.1) hordinary
  obtain ⟨-, -, -, hdouble⟩ := hexact (by decide)
  exact ⟨ledger, hledger, hbounded, hdouble⟩

/-- Ada's hour less 2 ^ 60 minutes is no double: the difference under the comparison that rejects the huge
settlement is rounded, between two plain members and with no reversal at all. -/
theorem rejected_difference_rounds :
    Succeeds (applyTransfers compare "garden" hourAndHuge (fun _ _ ↦ .ok true)) ∧
    ∃ transfersById,
      collectTransfers "garden" (fun _ _ ↦ .ok true) hourAndHuge = .ok transfersById ∧
      (∀ transfer ∈ transfersById, PlainMembers transfer ∧ Between {"ada", "ben"} transfer ∧
        transfer.reversesTransferId = none) ∧
      3000 * 2 ≤ 2 ^ 53 ∧
      ∃ before transfer after value,
        settlementsOf (sortBy (on compare (·.id)) transfersById) = before ++ transfer :: after ∧
        balanceOf (settled defaultPeerHoursLedgerPolicy before).balances transfer.recipientMemberId =
          .minutes value ∧
        round doublePrecision (value - transfer.minutes) ≠ value - transfer.minutes := by
  refine ⟨by decide +kernel, [hourTransfer "p/settlement" "ada" "ben" "p",
    hugeTransfer "q/settlement" "ben" "ada" "q"], by decide +kernel, by decide, by decide,
    [hourTransfer "p/settlement" "ada" "ben" "p"], hugeTransfer "q/settlement" "ben" "ada" "q", [], 60,
    by decide +kernel, by decide +kernel, by decide +kernel⟩

end PeerHours.TimebankLedger
