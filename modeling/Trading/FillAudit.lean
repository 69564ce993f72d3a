import Mathlib.Algebra.Order.Group.Multiset
import Trading.Async.Alone
import Trading.Async.Ledger
import Trading.EntryPrice
import Trading.OrderJournalReads
import Trading.OrderSystemRules

/-!
# The fills in the journal

A fill is made at the venue and journaled by the manager's callback, with other tasks in
between. None is lost or entered twice, but they may be entered in another order.
-/
namespace Trading

open Async Data Contract Relation PaperVenue PaperWorld

/-- Each write of a fill enters that fill once, and nothing else enters any. -/
structure OrderJournal.EntersFills {J : Type} (journal : OrderJournal J) (fills : J → List Fill) :
    Prop where
  writeOrder : ∀ o, (journal.writeOrder o).Frames fills
  writeFill : ∀ f, (journal.writeFill f).Enters (fun _ => (0 : Multiset Fill))
    (fun j => (fills j : Multiset Fill)) {f}

theorem InMemoryOrderJournal.entersFills : journal.EntersFills OrderTables.fills where
  writeOrder _ _ := ⟨rfl, trivial⟩
  writeFill _ := Co.enters_modify (fun _ => rfl) fun _ => (Multiset.coe_add _ _).symm

theorem SQLiteOrderJournal.entersFills : journal.EntersFills OrderTables.fills where
  writeOrder _ _ := ⟨rfl, trivial⟩
  writeFill f t := ⟨rfl, 0, (add_zero _).trans (Multiset.coe_add t.fills [f]).symm, rfl⟩

/-- What `_on_fill` does once the fill is journaled. -/
def OrderManager.executeFill {J : Type} (journal : OrderJournal J) (fill : Fill) :
    Coro (OrderManager J) Unit := do
  let m ← Co.get
  match m.orders.get fill.orderId with
  | none => pure ()
  | some order =>
    let updated ← Co.ofExcept (order.executed fill)
    Co.modify fun m => { m with orders := m.orders.set fill.orderId updated }
    (journal.writeOrder updated).lift

theorem OrderManager.onFill_eq {J : Type} (journal : OrderJournal J) (fill : Fill) :
    OrderManager.onFill journal fill =
      ((journal.writeFill fill).lift : Coro (OrderManager J) Unit).bind fun _ =>
        OrderManager.executeFill journal fill := rfl

section Books

variable {J ρ : Type} (fills : J → List Fill) (old : List Fill)

/-- The fills of before and those made since. -/
def madeFills (w : OmsWorld J ρ) : Multiset Fill := ↑(old ++ fillsOf w.trace)

def journaledFills (w : OmsWorld J ρ) : Multiset Fill := ↑(fills w.env.oms.journal)

abbrev fillLedger : Contract (OmsWorld J ρ) (Multiset Fill) :=
  ledger (madeFills old) (journaledFills fills)

/-- The fills that a task owes the journal. -/
abbrev OwesFills (owing : Multiset Fill) :
    Multiset Fill → OmsWorld J ρ → OmsWorld J ρ → Prop :=
  Owes (madeFills old) (journaledFills fills) owing

variable {fills old} {cfg : PaperConfig} {journal : OrderJournal J} {before after : Subscribers ρ}

/-- The environment makes no fills. -/
theorem frames_environment {α : Type} {p : Coro (OmsEnv J ρ) α}
    (hp : p.Frames fun env => fills env.oms.journal) :
    (p.lift : Coro (OmsWorld J ρ) α).Frames fun w => (madeFills old w, journaledFills fills w) := by
  have hmade : (p.lift : Coro (OmsWorld J ρ) α).Frames (madeFills old) :=
    Co.frames_lift p fun _ _ => rfl
  exact hmade.prod (hp.lift.comp fun fs => (fs : Multiset Fill))

theorem frames_foreign {α : Type} (p : Coro ρ α) :
    (p.lift : Coro (OmsEnv J ρ) α).Frames fun env => fills env.oms.journal :=
  Co.frames_lift p fun _ _ => rfl

theorem frames_onOrderUpdate (hj : journal.EntersFills fills) (order : Order) :
    (OrderManager.onOrderUpdate journal order).Frames fun m => fills m.journal :=
  Co.frames_bind (fun _ => ⟨rfl, trivial⟩) fun _ => (hj.writeOrder order).lift

theorem frames_executeFill (hj : journal.EntersFills fills) (fill : Fill) :
    (OrderManager.executeFill journal fill).Frames fun m => fills m.journal := by
  refine Co.frames_bind Co.frames_get fun m => ?_
  split
  · exact Co.frames_pure _
  · next order hcached =>
    cases hex : order.executed fill with
    | error e => exact Co.frames_throw _
    | ok updated =>
      refine Co.frames_bind (Co.frames_pure updated) fun updated' => ?_
      exact Co.frames_bind (fun _ => ⟨rfl, trivial⟩) fun _ => (hj.writeOrder updated').lift

theorem frames_recordSubmission (hj : journal.EntersFills fills) (order : Order) :
    (OrderManager.recordSubmission journal order).Frames fun m => fills m.journal :=
  Co.frames_bind (hj.writeOrder order).lift fun _ _ => ⟨rfl, trivial⟩

theorem frames_tell (hj : journal.EntersFills fills) (order : Order) :
    ((managerSubs journal before after).tell order).Frames fun env => fills env.oms.journal := by
  apply Co.frames_forEach
  intro cb hcb
  rcases List.mem_append.mp hcb with hfirst | hrest
  · obtain ⟨cb', -, rfl⟩ := List.mem_map.mp hfirst
    exact frames_foreign _
  · rcases List.mem_cons.mp hrest with rfl | hlast
    · exact (frames_onOrderUpdate hj order).lift
    · obtain ⟨cb', -, rfl⟩ := List.mem_map.mp hlast
      exact frames_foreign _

/-- The manager's callback journals the fill, and then only deals with the order. -/
theorem follows_onFill_owing (hj : journal.EntersFills fills) (fill : Fill) {owed : Multiset Fill}
    {s₀ s : OmsWorld J ρ} (h : OwesFills fills old {fill} owed s₀ s) :
    (fillLedger fills old).Follows (fun _ => OwesFills fills old 0) (fun _ => OwesFills fills old 0)
      (((OrderManager.onFill journal fill).lift : Coro (OmsEnv J ρ) Unit).lift) owed s₀ s := by
  have hwrite : ((((journal.writeFill fill).lift : Coro (OrderManager J) Unit).lift :
      Coro (OmsEnv J ρ) Unit).lift : Coro (OmsWorld J ρ) Unit).Enters (madeFills old)
        (journaledFills fills) {fill} := by
    have hmanager : ((journal.writeFill fill).lift : Coro (OrderManager J) Unit).Enters
        (fun _ => (0 : Multiset Fill)) (fun m => (fills m.journal : Multiset Fill)) {fill} :=
      (hj.writeFill fill).lift (fun _ _ => rfl) fun _ => rfl
    have henv : (((journal.writeFill fill).lift : Coro (OrderManager J) Unit).lift :
        Coro (OmsEnv J ρ) Unit).Enters (fun _ => (0 : Multiset Fill))
          (fun env => (fills env.oms.journal : Multiset Fill)) {fill} :=
      hmanager.lift (fun _ _ => rfl) fun _ => rfl
    exact henv.lift (fun _ _ => rfl) fun _ => rfl
  rw [OrderManager.onFill_eq, Co.lift_bind, Co.lift_bind, follows_bind]
  rw [← zero_add ({fill} : Multiset Fill)] at h
  refine (follows_enters hwrite h).mono (fun _ owed s₀ s h => ?_) fun _ _ _ _ h => h
  exact keeps_owes (frames_environment (frames_executeFill hj fill).lift) owed s₀ s h

/-- A fill that has been made is journaled while it is announced. -/
theorem follows_fillAnnounced (hj : journal.EntersFills fills)
    (hb : ∀ cb ∈ before.fillCbs, ∀ f, (cb f).NoThrow) (fill : Fill) (updated : Order)
    {owed : Multiset Fill} {s₀ s : OmsWorld J ρ} (h : OwesFills fills old {fill} owed s₀ s) :
    (fillLedger fills old).Follows (fun _ => OwesFills fills old 0) (fun _ => OwesFills fills old 0)
      ((notifyFill (omsSubscribers journal before after) fill).bind
        fun _ => notifyOrder (omsSubscribers journal before after) updated) owed s₀ s := by
  have hfirst : ∀ cb ∈ (before.lift : Subscribers (OmsEnv J ρ)).fillCbs, ∀ owed (s₀ s : OmsWorld J ρ),
      OwesFills fills old {fill} owed s₀ s → (fillLedger fills old).Follows
        (fun _ => OwesFills fills old {fill}) (fun _ => OwesFills fills old 0)
          ((cb fill).lift : Coro (OmsWorld J ρ) Unit) owed s₀ s := by
    intro cb hcb owed s₀ s h
    obtain ⟨cb', hcb', rfl⟩ := List.mem_map.mp hcb
    exact follows_owes (frames_environment (frames_foreign _)) (hb cb' hcb' fill).lift.lift h
  have hlast : ∀ owed (s₀ s : OmsWorld J ρ), OwesFills fills old 0 owed s₀ s →
      (fillLedger fills old).Follows (fun _ => OwesFills fills old 0)
        (fun _ => OwesFills fills old 0)
        (((Co.forEach (after.lift : Subscribers (OmsEnv J ρ)).fillCbs fun cb => cb fill).bind
          fun _ => (managerSubs journal before after).tell updated).lift) owed s₀ s := by
    refine keeps_owes (frames_environment ?_)
    refine Co.frames_bind (Co.frames_forEach fun cb hcb => ?_) fun _ => frames_tell hj updated
    obtain ⟨cb', -, rfl⟩ := List.mem_map.mp hcb
    exact frames_foreign _
  have hcbs : (managerSubs journal before after).fillCbs =
      (before.lift : Subscribers (OmsEnv J ρ)).fillCbs ++
        (fun f => (OrderManager.onFill journal f).lift) ::
          (after.lift : Subscribers (OmsEnv J ρ)).fillCbs := rfl
  rw [omsSubscribers_eq, notifyFill_lift, Subscribers.tellFill, hcbs, Co.forEach_append,
    Co.bind_assoc, Co.lift_bind, follows_bind, Co.lift_forEach]
  refine (follows_forEach _ _ hfirst h).mono (fun _ owed s₀ s h => ?_) fun _ _ _ _ h => h
  rw [Co.forEach_cons, Co.bind_assoc, Co.lift_bind, follows_bind]
  exact (follows_onFill_owing hj fill h).mono (fun _ => hlast) fun _ _ _ _ h => h

theorem venueKeeps_owes (hj : journal.EntersFills fills)
    (hb : ∀ cb ∈ before.fillCbs, ∀ f, (cb f).NoThrow) :
    VenueKeeps (fillLedger fills old) cfg (omsSubscribers journal before after)
      (OwesFills fills old 0) := by
  have htell : ∀ order, (fillLedger fills old).Keeps (OwesFills fills old 0)
      (notifyOrder (omsSubscribers journal before after) order) := by
    intro order
    rw [omsSubscribers_eq, notifyOrder_lift]
    exact keeps_owes (frames_environment (frames_tell hj order))
  -- An order's update is no fill.
  have hupdate : ∀ {owed s₀} {s : OmsWorld J ρ} (v : PaperVenue) (order : Order),
      OwesFills fills old 0 owed s₀ s →
        OwesFills fills old 0 owed s₀ { s with venue := v, trace := s.trace ++ [.update order] } :=
    fun v order h => h.congr (by simp [madeFills]) rfl
  have hannounces : Announces (fillLedger fills old) cfg (fun _ => True)
      (omsSubscribers journal before after) (OwesFills fills old 0)
      fun _ => OwesFills fills old 0 :=
    { tick := fun h => h.congr rfl rfl
      raised := fun _ h => h
      observe := fun _ h => h.congr rfl rfl
      fill := by
        intro owed s₀ s oid order book now f updated _ _ _ _ h
        apply follows_fillAnnounced hj hb
        rw [← zero_add ({f} : Multiset Fill)]
        exact h.make (by simp [madeFills, ← Multiset.coe_add, add_assoc]) rfl
      cancel := by
        intro owed s₀ s oid order now _ h
        exact htell _ _ _ _ (hupdate _ _ h) }
  exact
    { tick := hannounces.tick
      observe := fun _ h => hannounces.observe trivial h
      tryFill := fun _ _ _ _ _ h => hannounces.tryFillOrder (.inl trivial) h
      tell := htell
      place := fun _ _ h => hupdate _ _ h
      cancel := fun _ _ _ _ h => hupdate _ _ h }

/-- At any moment the fills that are not in the journal are owed to it by some task. -/
theorem fills_balance (hj : journal.EntersFills fills)
    (hb : ∀ cb ∈ before.fillCbs, ∀ f, (cb f).NoThrow) (j : J) (clock : Clock) (rest : ρ)
    {c : Config (OmsWorld J ρ) PyError}
    (hc : Reaches (OmsOp.prog cfg journal before after) (fun _ _ => True)
      ⟨.new j clock rest, []⟩ c) :
    (∃ owed, madeFills (fills j) c.state = owed + journaledFills fills c.state) ∧
      (c.tasks = [] → madeFills (fills j) c.state = journaledFills fills c.state) := by
  have hops : ∀ op : OmsOp, (fillLedger fills (fills j)).Keeps (OwesFills fills (fills j) 0)
      (op.prog cfg journal before after) := by
    intro op
    apply (venueKeeps_owes hj hb).omsOp
    intro order
    have hmade : ((OrderManager.recordSubmission journal order).lift :
        Coro (OmsWorld J ρ) Unit).Frames (madeFills (fills j)) := Co.frames_lift _ fun _ _ => rfl
    exact keeps_owes (hmade.prod
      ((frames_recordSubmission hj order).lift.comp fun fs => (fs : Multiset Fill)))
  exact reaches_balanced hops (by simp [madeFills, journaledFills, OmsWorld.new, OrderManager.new]) hc

end Books

section Once

variable {J ρ : Type} {fills : J → List Fill} (cfg : PaperConfig) {journal : OrderJournal J}
  (before after : Subscribers ρ)

/-- Whatever the interleaving, the journal has no fill that was not made and none twice; it
has all of them as soon as no task is left. -/
theorem fills_journaled_once (hj : journal.EntersFills fills)
    (hb : ∀ cb ∈ before.fillCbs, ∀ f, (cb f).NoThrow) (j : J) (clock : Clock) (rest : ρ)
    (labels : List (Label OmsOp)) :
    let c := Config.run (OmsOp.prog cfg journal before after) ⟨.new j clock rest, []⟩ labels
    (fills c.state.env.oms.journal).Subperm (fills j ++ fillsOf c.state.trace) ∧
      (c.tasks = [] →
        (fills c.state.env.oms.journal).Perm (fills j ++ fillsOf c.state.trace)) := by
  intro c
  have hc : Reaches (OmsOp.prog cfg journal before after) (fun _ _ => True)
      ⟨.new j clock rest, []⟩ c := .of_run _ labels fun _ _ _ => trivial
  obtain ⟨⟨owed, howed⟩, hdone⟩ := fills_balance hj hb j clock rest hc
  constructor
  · have hle : journaledFills fills c.state ≤ madeFills (fills j) c.state := by
      rw [howed]
      exact Multiset.le_add_left _ owed
    exact Multiset.coe_le.mp hle
  · exact fun htasks => Multiset.coe_eq_coe.mp (hdone htasks).symm

end Once

/-- Every reading of the clock is later than the ones before. -/
def RunsOn (reading : Nat → Time) : Prop := ∀ m n, m < n → reading m < reading n

theorem RunsOn.le {reading : Nat → Time} (h : RunsOn reading) {m n : Nat} (hmn : m ≤ n) :
    reading m ≤ reading n := by
  rcases Nat.eq_or_lt_of_le hmn with rfl | hlt
  · exact le_rfl
  · exact (h m n hlt).le

section Times

variable {ε : Type} (reading : Nat → Time) (start : Nat)

/-- The fills carry earlier readings of the clock, each a later one than the fill before. -/
structure Stamped (w : PaperWorld ε) : Prop where
  clock : w.clock.reading = reading
  reads : start ≤ w.clock.reads
  ascend : (fillsOf w.trace).Pairwise fun f g => f.timestamp < g.timestamp
  within : ∀ f ∈ fillsOf w.trace, reading start ≤ f.timestamp ∧ f.timestamp < reading w.clock.reads

variable {reading start} {w : PaperWorld ε}

theorem Stamped.tick (h : Stamped reading start w) (hclock : RunsOn reading) :
    Stamped reading start w.tick where
  clock := h.clock
  reads := h.reads.trans (Nat.le_succ _)
  ascend := h.ascend
  within f hf := ⟨(h.within f hf).1, (h.within f hf).2.trans (hclock _ _ (Nat.lt_succ_self _))⟩

/-- Only fills are looked at. -/
theorem Stamped.congr {w' : PaperWorld ε} (h : Stamped reading start w) (hclock : w'.clock = w.clock)
    (hfills : fillsOf w'.trace = fillsOf w.trace) : Stamped reading start w' where
  clock := by rw [hclock, h.clock]
  reads := by rw [hclock]; exact h.reads
  ascend := by rw [hfills]; exact h.ascend
  within := by rw [hfills, hclock]; exact h.within

/-- A fill that carries the next reading. -/
theorem Stamped.fill (h : Stamped reading start w) (hclock : RunsOn reading) {f : Fill}
    (hf : f.timestamp = w.clock.reading w.clock.reads) (v : PaperVenue) (order : Order) :
    Stamped reading start
      { w.tick with venue := v, trace := w.trace ++ [.fill f, .update order] } where
  clock := h.clock
  reads := h.reads.trans (Nat.le_succ _)
  ascend := by
    rw [fillsOf_append, List.pairwise_append]
    refine ⟨h.ascend, List.pairwise_singleton _ f, fun g hg f' hf' => ?_⟩
    rw [List.mem_singleton.mp hf', hf, h.clock]
    exact (h.within g hg).2
  within g hg := by
    rw [fillsOf_append] at hg
    rcases List.mem_append.mp hg with hold | hnew
    · exact (h.tick hclock).within g hold
    · rw [List.mem_singleton.mp hnew, hf, h.clock]
      exact ⟨hclock.le h.reads, hclock _ _ (Nat.lt_succ_self _)⟩

variable {cfg : PaperConfig} {subs : Subscribers ε}

theorem venueKeeps_stamped (hclock : RunsOn reading) :
    VenueKeeps (invariance (Stamped reading start)) cfg subs.lift
      fun _ _ => Stamped (ε := ε) reading start := by
  have hput : ∀ (l : Unit) (s₀ s : PaperWorld ε) (e : ε), Stamped reading start s →
      Stamped reading start (Part.put e s : PaperWorld ε) := fun _ _ _ _ h => h.congr rfl rfl
  refine
    { tick := fun h => h.tick hclock
      observe := fun _ h => h.congr rfl rfl
      tryFill := ?_
      tell := keeps_tell hput invariance_wait subs
      place := fun _ _ h => h.congr rfl (by simp)
      cancel := fun _ _ _ _ h => h.congr rfl (by simp) }
  intro oid book l s₀ s h
  simp only [tryFillOrder, Co.bind_eq, follows_bind, follows_readVenue]
  cases s.venue.openOrders.get oid with
  | none => exact h
  | some order =>
    simp only [follows_bind, follows_readNow]
    split
    · exact h.tick hclock
    · next f hfill =>
      unfold applyFillToOrder
      cases order.executed f with
      | error e => exact h.tick hclock
      | ok updated =>
        have htime : f.timestamp = s.clock.reading s.clock.reads :=
          (FillEngine.tryFill_describes hfill).timestamp
        simp only [Co.ofExcept, Co.bind_eq, Co.pure_bind, follows_bind, follows_record]
        rw [← follows_bind, notifyFill_lift]
        exact keeps_lift _ hput invariance_wait l s₀ _ (h.fill hclock htime _ updated)

end Times

section Audit

variable {ρ : Type} (cfg : PaperConfig) (before after : Subscribers ρ)

/-- The fills that the SQLite journal reads back from the start of a session on are those of
the venue, in the order in which they were made, and booking them gives its positions. -/
theorem fills_read_back (hb : ∀ cb ∈ before.fillCbs, ∀ f, (cb f).NoThrow) (tables : OrderTables)
    (clock : Clock) (hclock : RunsOn clock.reading) (rest : ρ) (since : Time)
    (hold : ∀ f ∈ tables.fills, f.timestamp < since) (hsince : since ≤ clock.reading clock.reads)
    (labels : List (Label OmsOp)) :
    let c := Config.run (OmsOp.prog cfg SQLiteOrderJournal.journal before after)
      ⟨.new tables clock rest, []⟩ labels
    let read := SQLiteOrderJournal.fillsSince c.state.env.oms.journal since
    c.tasks = [] → read = fillsOf c.state.trace ∧ ∀ symbol,
      c.state.venue.position symbol = .ofFills (read.filter fun f => f.symbol = symbol) := by
  intro c read hdone
  have hc : Reaches (OmsOp.prog cfg SQLiteOrderJournal.journal before after) (fun _ _ => True)
      ⟨.new tables clock rest, []⟩ c := .of_run _ labels fun _ _ _ => trivial
  have hperm : c.state.env.oms.journal.fills.Perm (tables.fills ++ fillsOf c.state.trace) :=
    (fills_journaled_once cfg before after SQLiteOrderJournal.entersFills hb tables clock rest
      labels).2 hdone
  have hstamped : Stamped clock.reading clock.reads c.state := by
    have hkeeps : VenueKeeps (invariance (Stamped clock.reading clock.reads)) cfg
        (omsSubscribers SQLiteOrderJournal.journal before after)
        fun _ _ => Stamped clock.reading clock.reads := venueKeeps_stamped hclock
    have hrecord : ∀ order, (invariance (Stamped clock.reading clock.reads)).Keeps
        (fun _ _ => Stamped clock.reading clock.reads)
        ((OrderManager.recordSubmission SQLiteOrderJournal.journal order).lift :
          Coro (OmsWorld OrderTables ρ) Unit) := fun _ =>
      keeps_lift _ (fun _ _ _ _ h => h.congr rfl rfl) invariance_wait
    refine Reaches.invariant (fun op => hkeeps.omsOp hrecord op) ?_ hc
    exact ⟨rfl, le_rfl, .nil, fun _ hf => absurd hf List.not_mem_nil⟩
  have hnew : (tables.fills ++ fillsOf c.state.trace).filter (fun f => since ≤ f.timestamp) =
      fillsOf c.state.trace := by
    rw [List.filter_append, List.filter_eq_nil_iff.mpr, List.nil_append, List.filter_eq_self.mpr]
    · intro f hf
      exact decide_eq_true (hsince.trans (hstamped.within f hf).1)
    · intro f hf
      simpa using hold f hf
  have hread : read = fillsOf c.state.trace := by
    apply sortBy_of_perm
    · exact hnew ▸ hperm.filter _
    · exact hstamped.ascend
  refine ⟨hread, fun symbol => ?_⟩
  rw [hread]
  exact positionsOfFills_steps (oms_paperSteps hc) (fun _ => rfl) symbol

end Audit

/-- A subscriber that waits before the manager hears of a fill. -/
def slowFirst : Subscribers Unit := ⟨[], [fun _ => Co.yield]⟩

def askedAt100 (symbol : Symbol) : OrderbookSnapshot := ⟨symbol, [], [⟨100, 5⟩], 0, 0⟩

def marketBuyOf (symbol : Symbol) (cid : ClientOrderId) : Label OmsOp :=
  .call (.submit cid ⟨symbol, .buy, .market, 1, none, .gtc, false⟩)

/-- The second fill is resumed until it is journaled before the first one is. -/
def overtaken : List (Label OmsOp) :=
  [marketBuyOf "BTC" "a", .resume 0, .resume 0, marketBuyOf "ETH" "b", .resume 0, .resume 0,
    .call (.onOrderbook (askedAt100 "BTC")), .call (.onOrderbook (askedAt100 "ETH")),
    .resume 1, .resume 1, .resume 1, .resume 1, .resume 0, .resume 0, .resume 0, .resume 0]

def overtakenRun : Config (OmsWorld OrderTables Unit) PyError :=
  Config.run (OmsOp.prog ⟨.immediate "USDT", 1000, "USDT"⟩ SQLiteOrderJournal.journal slowFirst
    ⟨[], []⟩) ⟨.new ⟨[], []⟩ ⟨fun n => n, 0⟩ (), []⟩ overtaken

theorem slowFirst_returns : ∀ cb ∈ slowFirst.fillCbs, ∀ f, (cb f).NoThrow := by
  intro cb hcb f
  rw [List.mem_singleton.mp hcb]
  trivial

/-- They are journaled in the other order. -/
theorem fills_journaled_once_overtaken :
    overtakenRun.state.env.oms.journal.fills ≠ fillsOf overtakenRun.state.trace ∧
      overtakenRun.state.env.oms.journal.fills.Perm (fillsOf overtakenRun.state.trace) := by
  have honce := fills_journaled_once ⟨.immediate "USDT", 1000, "USDT"⟩ slowFirst ⟨[], []⟩
    SQLiteOrderJournal.entersFills slowFirst_returns ⟨[], []⟩ ⟨fun n => n, 0⟩ () overtaken
  exact ⟨by decide +kernel, honce.2 (by decide +kernel)⟩

/-- And read back as they were made. -/
theorem fills_read_back_overtaken :
    SQLiteOrderJournal.fillsSince overtakenRun.state.env.oms.journal 0 =
      fillsOf overtakenRun.state.trace := by
  have hread := fills_read_back ⟨.immediate "USDT", 1000, "USDT"⟩ slowFirst ⟨[], []⟩
    slowFirst_returns ⟨[], []⟩ ⟨fun n => n, 0⟩ (fun _ _ h => Int.ofNat_lt.mpr h) () 0 (by simp) (by decide)
    overtaken
  exact (hread (by decide +kernel)).1

end Trading
