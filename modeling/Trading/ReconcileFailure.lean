import Trading.Async.Interference
import Trading.PositionManager

/-!
# A reconciliation that fails

`reconcile` asks the venue twice and fills one cache after each answer. The tick loop
swallows what it raises and goes on with the caches as they are.
-/
namespace Trading.PositionManager

open Async Data

variable {ρ : Type}

/-- Nobody can tell the managers apart by `positions()` and `balance()`, whatever a venue
would answer now. -/
def SameAnswers (m m' : PositionManager AccountTables) : Prop :=
  (positions.exec m').2 = (positions.exec m).2 ∧
    ∀ (ρ : Type) (venue : Venue ρ) (rest : ρ),
      ((balance (J := AccountTables) (venue.lift : Venue (PmsWorld ρ))).exec ⟨m', rest⟩).2 =
        ((balance (J := AccountTables) (venue.lift : Venue (PmsWorld ρ))).exec ⟨m, rest⟩).2

section Failure

variable (venue : Venue ρ) (others : Nat → ρ → ρ) (journal : Option (AccountJournal AccountTables))
  (m : PositionManager AccountTables) (rest : ρ)

/-- What the venue answers to `get_positions`, while others change what it rests on. -/
def fetched : Except PyError (List Position) := (venue.getPositions.execAmid others 0 rest).2

/-- One of the two questions to the venue raises. -/
def VenueRaises : Prop :=
  match venue.getPositions.execAmid others 0 rest with
  | (_, .error _) => True
  | ((rest', n), .ok _) => ∃ e, (venue.getBalance.execAmid others n rest').2 = .error e

/-- The manager after the reconciliation. -/
def reconciledAmid : PositionManager AccountTables :=
  ((reconcile (venue.lift : Venue (PmsWorld ρ)) journal).execAmid
    (Co.within others) 0 ⟨m, rest⟩).1.1.pms

variable {venue others m rest}

/-- A failed reconciliation keeps the balance, and the positions unless they were fetched. -/
theorem reconciledAmid_of_raises (hraises : VenueRaises venue others rest) :
    reconciledAmid venue others journal m rest = match fetched venue others rest with
      | .error _ => m
      | .ok ps => { m with cachedPositions := .ofList Position.symbol ps } := by
  rw [VenueRaises] at hraises
  simp only [reconciledAmid, reconcile, fetched, Venue.lift, Co.bind_eq, Co.execAmid_bind,
    Co.execAmid_lift, Co.execAmid_lift_modify]
  have hview : (Part.view (⟨m, rest⟩ : PmsWorld ρ) : ρ) = rest := rfl
  rw [hview]
  rcases hget : venue.getPositions.execAmid others 0 rest with ⟨⟨rest', n⟩, e | ps⟩
  · rfl
  · rw [hget] at hraises
    obtain ⟨e, he⟩ := hraises
    change (venue.getBalance.execAmid others n rest').2 = .error e at he
    rcases hbalance : venue.getBalance.execAmid others n rest' with ⟨⟨rest'', n'⟩, e' | b⟩
    · simp [Part.view, Part.put, hbalance]
    · rw [hbalance] at he
      cases he

/-- The balance is answered as before if the cached one is. -/
theorem sameAnswers_iff {m m' : PositionManager AccountTables}
    (hbalance : m'.cachedBalance = m.cachedBalance) :
    SameAnswers m m' ↔ m'.cachedPositions.values = m.cachedPositions.values := by
  have hpositions : ∀ m : PositionManager AccountTables,
      (positions.exec m).2 = .ok m.cachedPositions.values := fun _ => rfl
  constructor
  · rintro ⟨hsame, -⟩
    rw [hpositions, hpositions] at hsame
    exact Except.ok.inj hsame
  · intro hvalues
    refine ⟨by rw [hpositions, hpositions, hvalues], fun ρ venue rest => ?_⟩
    have hcached : ∀ (m : PositionManager AccountTables) (b : Balance), m.cachedBalance = some b →
        ((balance (J := AccountTables) (venue.lift : Venue (PmsWorld ρ))).exec ⟨m, rest⟩).2 =
          .ok b := by
      intro m b hb
      simp [balance, Co.exec_bind, Part.view, hb]
    have hfetched : ∀ m : PositionManager AccountTables, m.cachedBalance = none →
        ((balance (J := AccountTables) (venue.lift : Venue (PmsWorld ρ))).exec ⟨m, rest⟩).2 =
          (venue.getBalance.exec rest).2 := by
      intro m hb
      simp only [balance, Co.pure_eq, Venue.lift, Co.bind_eq, Co.exec_bind, Co.exec_lift,
        Part.view, Co.exec_get, hb, Co.exec_modify, Co.exec_pure]
      rcases venue.getBalance.exec rest with ⟨rest', e | b⟩ <;> rfl
    cases hb : m.cachedBalance with
    | some b => rw [hcached m b hb, hcached m' b (hbalance.trans hb)]
    | none => rw [hfetched m hb, hfetched m' (hbalance.trans hb)]

/-- A failed reconciliation is not noticed exactly if the positions could not be fetched or
are those that were cached. -/
theorem failed_reconcile_unnoticed_iff (hraises : VenueRaises venue others rest) :
    SameAnswers m (reconciledAmid venue others journal m rest) ↔
      ∀ ps, fetched venue others rest = .ok ps →
        (Dict.ofList Position.symbol ps).values = m.cachedPositions.values := by
  rw [reconciledAmid_of_raises journal hraises]
  cases hfetched : fetched venue others rest with
  | error e =>
    refine iff_of_true ((sameAnswers_iff rfl).mpr rfl) ?_
    intro ps hps
    cases hps
  | ok ps =>
    have hbalance : ({ m with cachedPositions := .ofList Position.symbol ps } :
        PositionManager AccountTables).cachedBalance = m.cachedBalance := rfl
    refine (sameAnswers_iff hbalance).trans ⟨?_, ?_⟩
    · intro hvalues ps' hps'
      cases hps'
      exact hvalues
    · intro hall
      exact hall ps rfl

end Failure

/-- A venue that knows its positions but not its balance. -/
def halfVenue (positions : List Position) : Venue Unit where
  placeOrder _ := .throw ⟨"VenueError", "unavailable"⟩
  cancelOrder _ := pure false
  getOrder _ := pure none
  getOpenOrders _ := pure []
  getPositions := pure positions
  getBalance := .throw ⟨"TimeoutError", ""⟩

def longBtc : Position := ⟨"BTC", .long, 1, 100, 100, 0, 0, 1, none, 0⟩

def richAndFlat : PositionManager AccountTables :=
  ⟨.empty, some ⟨"USDT", 1000, 1000, 0, 0⟩, ⟨[], []⟩⟩

/-- One who already knows that position. -/
def richAndLong : PositionManager AccountTables :=
  { richAndFlat with cachedPositions := .ofList Position.symbol [longBtc] }

/-- The venue lists what is cached, so that nobody sees that the balance is missing. -/
theorem failed_reconcile_unnoticed_iff_long :
    richAndLong.cachedPositions.values = [longBtc] ∧ SameAnswers richAndLong
      (reconciledAmid (halfVenue [longBtc]) (fun _ => id) none richAndLong ()) := by
  have hraises : VenueRaises (halfVenue [longBtc]) (fun _ => id) () := ⟨_, rfl⟩
  refine ⟨by decide +kernel, (failed_reconcile_unnoticed_iff none hraises).mpr ?_⟩
  intro ps hps
  cases hps
  rfl

/-- The new position shows up next to the old balance. -/
theorem failed_reconcile_mixes :
    let after := reconciledAmid (halfVenue [longBtc]) (fun _ => id) none richAndFlat ()
    VenueRaises (halfVenue [longBtc]) (fun _ => id) () ∧
      after.cachedPositions.values = [longBtc] ∧ after.cachedBalance = richAndFlat.cachedBalance ∧
      ¬ SameAnswers richAndFlat after := by
  intro after
  refine ⟨⟨_, rfl⟩, by decide +kernel, by decide +kernel, fun hsame => ?_⟩
  have hpositions : after.cachedPositions.values = richAndFlat.cachedPositions.values :=
    Except.ok.inj hsame.1
  exact absurd hpositions (by decide +kernel)

end Trading.PositionManager
