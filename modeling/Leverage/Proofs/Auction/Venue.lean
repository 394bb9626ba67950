import Leverage.Auction.Venue
import Leverage.Proofs.Auction.Walk

/-!
# Venues and the price of an auction

Two clocks run on one order. Its venues wait for the auction to be over, which takes a slot more
than its steps do, or none at all; its price stands still as soon as all steps are taken.

`Finished` is what the first clock says. From there on the price is the end of the range
(`settledAt_of_finished`), so a venue that has opened never closes and never sees the price move:
`venues_agree_with_price`.
-/

namespace Leverage

/-! ## Lists of open venues -/

section OpenVenue

variable {α : Type} {venue waiting resting : α} {isOpen isOpenLater restingThere : Bool}

theorem mem_openVenue_iff {other : α} :
    other ∈ openVenue venue isOpen ↔ other = venue ∧ isOpen = true := by
  cases isOpen with
  | false => simp [openVenue]
  | true => simp [openVenue]

/-- A venue that stays open keeps its place, and one that opens comes last. -/
theorem openVenue_prefix (stays : isOpen = true → isOpenLater = true) :
    openVenue venue isOpen <+: openVenue venue isOpenLater := by
  cases isOpen with
  | false => exact List.nil_prefix
  | true =>
    obtain rfl : isOpenLater = true := stays rfl
    exact List.prefix_refl _

end OpenVenue

namespace Order

variable {order taker : Order} {slot earlier later : Slot} {tick price : OrderPrice}

/-! ## The end of an auction -/

/-- The auction of an order is over in a slot: there is none, or its steps lie behind the order. -/
def Finished (order : Order) (slot : Slot) : Prop :=
  order.duration.val = 0 ∨ order.duration.val < slot.val - order.slot.val

instance (order : Order) (slot : Slot) : Decidable (order.Finished slot) :=
  inferInstanceAs (Decidable (_ ∨ _))

theorem Finished.mono (finished : order.Finished earlier) (inOrder : earlier ≤ later) :
    order.Finished later := by
  rcases finished with none | behind
  · exact Or.inl none
  · exact Or.inr (lt_of_lt_of_le behind (sub_le_sub_right (Word.le_iff.1 inOrder) _))

/-- No step is left to take. -/
theorem Finished.stepsTaken_eq (finished : order.Finished slot) (placed : order.slot ≤ slot) :
    order.stepsTaken slot = order.duration.val := by
  apply min_eq_right
  rcases finished with none | behind
  · rw [none]
    exact sub_nonneg.2 placed
  · exact behind.le

theorem Finished.walked_eq (finished : order.Finished slot) (placed : order.slot ≤ slot) :
    order.walked (order.stepsTaken slot) = order.auction.stop.val := by
  rw [finished.stepsTaken_eq placed, walked_duration]

theorem auctionOver_eq (placed : order.slot ≤ slot) :
    order.auctionOver slot = .ok (decide (order.Finished slot)) := by
  unfold auctionOver Leverage.auctionOver
  split
  · next none =>
    have finished : order.Finished slot := Or.inl (Word.eq_zero_iff.1 none)
    rw [decide_eq_true finished]
  · next auctioned =>
    obtain ⟨elapsed, subtracted⟩ := Word.exists_unsigned_sub_eq_ok_iff.2 placed
    rw [Word.eq_zero_iff] at auctioned
    rw [subtracted]
    change Except.ok (decide (order.duration.widen < elapsed)) = _
    rw [Except.ok.injEq, decide_eq_decide, Word.lt_iff, Word.sub_eq_ok_iff.1 subtracted]
    exact (or_iff_right auctioned).symm

/-- From a slot on the price is that of the end of the range: as it is without an auction, and on
the grid after one. -/
structure SettledAt (order : Order) (slot : Slot) (tick price : OrderPrice) : Prop where
  final : if order.duration.val = 0 then price = order.auction.stop
    else snapToTick order.auction.stop tick order.direction = .ok price
  stands : ∀ later, slot ≤ later → order.auctionPrice later tick = .ok price

theorem settledAt_of_finished (finished : order.Finished slot)
    (priced : order.auctionPrice slot tick = .ok price) : order.SettledAt slot tick price := by
  obtain ⟨placed, priced⟩ := auctionPrice_eq_ok_iff.1 priced
  by_cases none : order.duration.val = 0
  · rw [if_pos none] at priced
    refine ⟨by rwa [if_pos none], ?_⟩
    intro later inOrder
    rw [auctionPrice_eq_ok_iff, if_pos none]
    exact ⟨le_trans placed inOrder, priced⟩
  · rw [if_neg none] at priced
    obtain ⟨rightWay, fits, walked, walkedEq, snapped⟩ := priced
    rw [finished.walked_eq placed] at walkedEq
    obtain rfl : walked = order.auction.stop := Word.ext walkedEq
    refine ⟨by rwa [if_neg none], ?_⟩
    intro later inOrder
    have placedLater : order.slot ≤ later := le_trans placed inOrder
    have finishedLater := finished.mono inOrder
    rw [finished.stepsTaken_eq placed, ← finishedLater.stepsTaken_eq placedLater] at fits
    rw [auctionPrice_eq_ok_iff, if_neg none]
    exact ⟨placedLater, rightWay, fits, _, (finishedLater.walked_eq placedLater).symm, snapped⟩

/-! ## Venues -/

/-- The open ones of two venues of an order, of which the second waits for the auction to be over.
-/
def openVenues {α : Type} (order : Order) (resting waiting : α) (restingThere waitingThere : Bool)
    (slot : Slot) : List α :=
  openVenue resting restingThere ++
    openVenue waiting (waitingThere && decide (order.Finished slot))

theorem perpVenues_eq (placed : taker.slot ≤ slot) (restingThere makerThere : Bool) :
    taker.perpVenues restingThere makerThere slot =
      .ok (taker.openVenues .restingOrder .marketMaker restingThere makerThere slot) := by
  unfold perpVenues
  rw [auctionOver_eq placed]
  cases makerThere with
  | false => rfl
  | true => rfl

theorem spotVenues_eq (placed : taker.slot ≤ slot) (restingThere externalThere : Bool) :
    taker.spotVenues restingThere externalThere slot =
      .ok (taker.openVenues .restingOrder .externalMarket restingThere
        (!taker.postOnly && externalThere) slot) := by
  unfold spotVenues openVenues
  rw [auctionOver_eq placed]
  cases !taker.postOnly && externalThere with
  | false => rfl
  | true => rfl

section OpenVenues

variable {α : Type} {resting waiting : α} {restingThere waitingThere : Bool}

/-- As the slots go by the open venues are only added to. -/
theorem openVenues_prefix (inOrder : earlier ≤ later) :
    order.openVenues resting waiting restingThere waitingThere earlier <+:
      order.openVenues resting waiting restingThere waitingThere later := by
  apply (List.prefix_append_right_inj _).2
  apply openVenue_prefix
  intro isOpen
  rw [Bool.and_eq_true, decide_eq_true_eq] at isOpen ⊢
  exact ⟨isOpen.1, isOpen.2.mono inOrder⟩

theorem finished_of_mem_openVenues (distinct : waiting ≠ resting)
    (waits : waiting ∈ order.openVenues resting waiting restingThere waitingThere slot) :
    order.Finished slot := by
  rw [openVenues, List.mem_append, mem_openVenue_iff, mem_openVenue_iff, Bool.and_eq_true,
    decide_eq_true_eq] at waits
  rcases waits with ⟨same, -⟩ | ⟨-, -, finished⟩
  · exact absurd same distinct
  · exact finished

end OpenVenues

/-- From the slot of an order on its venues are known, and as the slots go by they are only added
to. Where the market maker or the external market is among them, the auction has come to the end of
its range and asks for the same price from then on. -/
theorem venues_agree_with_price (placed : taker.slot ≤ earlier) (inOrder : earlier ≤ later)
    (restingThere waitingThere : Bool) :
    (∃ first second, taker.perpVenues restingThere waitingThere earlier = .ok first ∧
      taker.perpVenues restingThere waitingThere later = .ok second ∧ first <+: second ∧
      (.marketMaker ∈ first → ∀ tick price, taker.auctionPrice earlier tick = .ok price →
        taker.SettledAt earlier tick price)) ∧
    ∃ first second, taker.spotVenues restingThere waitingThere earlier = .ok first ∧
      taker.spotVenues restingThere waitingThere later = .ok second ∧ first <+: second ∧
      (.externalMarket ∈ first → ∀ tick price, taker.auctionPrice earlier tick = .ok price →
        taker.SettledAt earlier tick price) := by
  have placedLater : taker.slot ≤ later := Int.le_trans placed inOrder
  constructor
  · refine ⟨_, _, perpVenues_eq placed restingThere waitingThere,
      perpVenues_eq placedLater restingThere waitingThere, openVenues_prefix inOrder, ?_⟩
    intro waits tick price priced
    exact settledAt_of_finished (finished_of_mem_openVenues (by decide) waits) priced
  · refine ⟨_, _, spotVenues_eq placed restingThere waitingThere,
      spotVenues_eq placedLater restingThere waitingThere, openVenues_prefix inOrder, ?_⟩
    intro waits tick price priced
    exact settledAt_of_finished (finished_of_mem_openVenues (by decide) waits) priced

/-- A seller whose auction takes five slots and stops between two ticks. -/
def patientSeller : Order where
  slot := .lit 10
  direction := .short
  duration := .lit 5
  auction := ⟨.lit 1000, .lit 907⟩

/-- In the slot of its last step only resting orders fill it, and one slot later every venue does.
-/
theorem venues_agree_with_price_of_patientSeller :
    patientSeller.slot ≤ .lit 15 ∧ (.lit 15 : Slot) ≤ .lit 16 ∧ (.lit 16 : Slot) ≤ .lit 40 ∧
      patientSeller.perpVenues true true (.lit 15) = .ok [.restingOrder] ∧
      patientSeller.perpVenues true true (.lit 16) = .ok [.restingOrder, .marketMaker] ∧
      [PerpVenue.restingOrder] <+: [.restingOrder, .marketMaker] ∧
      patientSeller.spotVenues false true (.lit 16) = .ok [.externalMarket] ∧
      patientSeller.auctionPrice (.lit 16) (.lit 10) = .ok (.lit 910) ∧
      snapToTick (.lit 907) (.lit 10) .short = .ok (.lit 910) ∧
      patientSeller.auctionPrice (.lit 40) (.lit 10) = .ok (.lit 910) := by
  have placed : patientSeller.slot ≤ .lit 15 := by decide
  have placedLater : patientSeller.slot ≤ .lit 16 := by decide
  have inOrder : (.lit 15 : Slot) ≤ .lit 16 := by decide
  have inOrderLater : (.lit 16 : Slot) ≤ .lit 40 := by decide
  have priced : patientSeller.auctionPrice (.lit 16) (.lit 10) = .ok (.lit 910) := rfl
  obtain ⟨⟨first, second, firstEq, secondEq, grows, -⟩, -⟩ :=
    venues_agree_with_price placed inOrder true true
  obtain rfl : [.restingOrder] = first := Except.ok.inj firstEq
  obtain rfl : [.restingOrder, .marketMaker] = second := Except.ok.inj secondEq
  obtain ⟨-, venues, -, venuesEq, -, -, settles⟩ :=
    venues_agree_with_price placedLater inOrderLater false true
  obtain rfl : [.externalMarket] = venues := Except.ok.inj venuesEq
  have settled := settles List.mem_cons_self _ _ priced
  exact ⟨placed, inOrder, inOrderLater, firstEq, secondEq, grows, venuesEq, priced, settled.final,
    settled.stands _ inOrderLater⟩

end Order

end Leverage
