import Mathlib.Data.List.Chain
import Trading.LiveOrderbook

/-!
# The live market data source under loss, repetition and reordering

An exchange numbers its changes of the book one by one. The connection delivers
any of its messages in any order; the handler applies and dispatches all of them.
-/
namespace Trading

open Data

/-- One symbol of the live source: its book, what went to the subscribers, what was logged. -/
structure OrderbookFeed where
  book : OrderbookState
  dispatched : List OrderbookSnapshot
  warnings : List (Int × Int)

namespace OrderbookFeed

def new (symbol : Symbol) : OrderbookFeed := ⟨.new symbol, [], []⟩

/-- `_orderbook_handler`. -/
def handle (f : OrderbookFeed) (m : OrderbookMessage) : OrderbookFeed where
  book := f.book.apply m
  dispatched := f.dispatched ++ [(f.book.apply m).toSnapshot m.ts]
  warnings := f.warnings ++ (f.book.warning m).toList

def handleAll (symbol : Symbol) (ms : List OrderbookMessage) : OrderbookFeed :=
  ms.foldl handle (new symbol)

theorem handleAll_concat (symbol : Symbol) (ms : List OrderbookMessage) (m : OrderbookMessage) :
    handleAll symbol (ms ++ [m]) = (handleAll symbol ms).handle m := by
  rw [handleAll, List.foldl_append]
  rfl

theorem book_handleAll (symbol : Symbol) (ms : List OrderbookMessage) :
    (handleAll symbol ms).book = (OrderbookState.new symbol).applyAll ms := by
  induction ms using List.reverseRecOn with
  | nil => rfl
  | append_singleton ms m ih =>
    rw [handleAll_concat, OrderbookState.applyAll_concat, ← ih]
    rfl

theorem length_dispatched (symbol : Symbol) (ms : List OrderbookMessage) :
    (handleAll symbol ms).dispatched.length = ms.length := by
  induction ms using List.reverseRecOn with
  | nil => rfl
  | append_singleton ms m ih =>
    rw [handleAll_concat, handle, List.length_append, List.length_append, ih]
    rfl

end OrderbookFeed

/-- A size for every price of either side, zero where there is no level. -/
abbrev Book := BookSide → Decimal → Decimal

/-- The book that a sequence of messages describes. -/
def referenceBook (ms : List OrderbookMessage) : Book := fun side p => (lastSize side ms p).getD 0

/-- Write the levels of a message over a book. -/
def Book.write (book : Book) (m : OrderbookMessage) : Book := fun side p =>
  ((latest (·.price.toDecimal) p (m.levels side)).map (·.size.toDecimal)).getD (book side p)

theorem referenceBook_concat (ms : List OrderbookMessage) (m : OrderbookMessage) :
    referenceBook (ms ++ [m]) =
      Book.write (if m.isSnapshot then fun _ _ => 0 else referenceBook ms) m := by
  funext side p
  rw [referenceBook, lastSize_concat, Book.write, Option.getD_or]
  cases m.isSnapshot <;> rfl

/-- An opening snapshot, changes numbered consecutively, and a snapshot of every
later book for those who ask again. -/
structure Exchange where
  symbol : Symbol
  start : Int
  change : Nat → OrderbookMessage
  snapshot : Nat → OrderbookMessage
  change_delta : ∀ n, (change n).isSnapshot = false
  change_id : ∀ n, (change n).u = some (start + n + 1)
  snapshot_type : ∀ n, (snapshot n).isSnapshot = true
  snapshot_id : ∀ n, (snapshot n).u = some (start + n)
  shows : ∀ n, referenceBook [snapshot n] =
    referenceBook (snapshot 0 :: (List.range n).map change)

/-- A message that the connection may deliver, any number of times or never. -/
inductive Packet where
  | snapshot (n : Nat)
  | change (n : Nat)
  deriving DecidableEq, Repr

namespace Packet

def isChange : Packet → Bool
  | .snapshot _ => false
  | .change _ => true

/-- How many changes the book has seen that a message leads to. -/
def reached : Packet → Nat
  | .snapshot n => n
  | .change n => n + 1

/-- A change comes directly after the message that it continues. -/
def InOrder (last : Option Packet) : Packet → Prop
  | .snapshot _ => True
  | .change n => ∃ p, last = some p ∧ p.reached = n

end Packet

/-- All come in order. -/
def Consecutive (packets : List Packet) : Prop :=
  ∀ before packet after, packets = before ++ packet :: after → packet.InOrder before.getLast?

/-- A change came out of order, after a gap or stale, and no snapshot has come since. -/
def Adrift (packets : List Packet) : Prop :=
  ∃ before packet after, packets = before ++ packet :: after ∧ ¬ packet.InOrder before.getLast? ∧
    ∀ p ∈ after, p.isChange

namespace Exchange

variable (ex : Exchange)

/-- The true book after `n` changes, when the update id is `start + n`. -/
def trueBook (n : Nat) : Book := referenceBook (ex.snapshot 0 :: (List.range n).map ex.change)

def message : Packet → OrderbookMessage
  | .snapshot n => ex.snapshot n
  | .change n => ex.change n

/-- What the handler has done after a delivery. -/
def deliver (packets : List Packet) : OrderbookFeed :=
  .handleAll ex.symbol (packets.map ex.message)

/-- A dispatched snapshot is the true book at the update id that it carries. -/
def TrueAt (s : OrderbookSnapshot) : Prop :=
  ∃ n : Nat, s.sequence = ex.start + n ∧
    (∀ l, l ∈ s.bids ↔ ex.trueBook n .bid l.price = l.quantity ∧ l.quantity ≠ 0) ∧
    ∀ l, l ∈ s.asks ↔ ex.trueBook n .ask l.price = l.quantity ∧ l.quantity ≠ 0

/-- Everything dispatched is true, and sequence numbers only decrease at snapshot messages. -/
structure Faithful (packets : List Packet) : Prop where
  true : ∀ s ∈ (ex.deliver packets).dispatched, ex.TrueAt s
  ordered : (packets.zip (ex.deliver packets).dispatched).IsChain fun x y =>
    y.1.isChange → x.2.sequence ≤ y.2.sequence

/-- Besides, nothing is dispatched after a gap or a stale change until there is a new
snapshot. -/
structure Lawful (packets : List Packet) : Prop extends ex.Faithful packets where
  quiet : ∀ before packet after, packets = before ++ packet :: after →
    Adrift (before ++ [packet]) →
      (ex.deliver (before ++ [packet])).dispatched = (ex.deliver before).dispatched

/-- The book that the last message leads to; empty before the first one. -/
def shown : Option Packet → Book
  | none => fun _ _ => 0
  | some last => ex.trueBook last.reached

/-- A change arrives on a book that it turns into the true one, and not later than it should. -/
def Fits (last : Option Packet) : Packet → Prop
  | .snapshot _ => True
  | .change n => (∀ p, last = some p → p.reached ≤ n + 1) ∧
    (ex.shown last).write (ex.change n) = ex.trueBook (n + 1)

def InStep (packets : List Packet) : Prop :=
  ∀ before packet after, packets = before ++ packet :: after → ex.Fits before.getLast? packet

theorem inStep_concat (packets : List Packet) (packet : Packet) :
    ex.InStep (packets ++ [packet]) ↔ ex.InStep packets ∧ ex.Fits packets.getLast? packet := by
  constructor
  · intro h
    refine ⟨fun before p after heq => h before p (after ++ [packet]) (by simp [heq]),
      h packets packet [] rfl⟩
  · rintro ⟨h, hfits⟩ before p after heq
    cases after using List.reverseRecOn with
    | nil =>
      obtain ⟨rfl, hp⟩ := List.append_inj' heq rfl
      cases hp
      exact hfits
    | append_singleton after q =>
      rw [← List.cons_append, ← List.append_assoc] at heq
      obtain ⟨heq, hq⟩ := List.append_inj' heq rfl
      exact h before p after heq

theorem trueBook_succ (n : Nat) : ex.trueBook (n + 1) = (ex.trueBook n).write (ex.change n) := by
  rw [trueBook, List.range_succ, List.map_append, ← List.cons_append, List.map_singleton,
    referenceBook_concat, ex.change_delta, trueBook]
  rfl

theorem write_snapshot (n : Nat) :
    Book.write (fun _ _ => 0) (ex.snapshot n) = ex.trueBook n := by
  have hshows := ex.shows n
  rw [← List.nil_append [ex.snapshot n], referenceBook_concat, ex.snapshot_type] at hshows
  exact hshows

/-- Changes that come in order fit. -/
theorem inStep_of_consecutive {packets : List Packet} (h : Consecutive packets) :
    ex.InStep packets := by
  intro before packet after heq
  have horder := h before packet after heq
  cases packet with
  | snapshot n => trivial
  | change n =>
    obtain ⟨last, hlast, rfl⟩ := horder
    rw [hlast]
    refine ⟨?_, (ex.trueBook_succ _).symm⟩
    rintro p ⟨⟩
    exact Nat.le_succ _

/-- The messages since the last snapshot describe the true book as long as all fit. -/
theorem referenceBook_of_inStep {packets : List Packet} (h : ex.InStep packets) :
    referenceBook (packets.map ex.message) = ex.shown packets.getLast? := by
  induction packets using List.reverseRecOn with
  | nil => rfl
  | append_singleton packets packet ih =>
    obtain ⟨hbefore, hfits⟩ := (ex.inStep_concat packets packet).mp h
    rw [List.map_append, List.map_singleton, referenceBook_concat, List.getLast?_concat, ih hbefore]
    cases packet with
    | snapshot n =>
      simp only [message, ex.snapshot_type, if_true]
      exact ex.write_snapshot n
    | change n =>
      simp only [message, ex.change_delta, Bool.false_eq_true, if_false]
      exact hfits.2

theorem message_id (packet : Packet) :
    (ex.message packet).u = some (ex.start + packet.reached) := by
  cases packet with
  | snapshot n => exact ex.snapshot_id n
  | change n => rw [message, ex.change_id, Packet.reached, Nat.cast_succ, add_assoc]

theorem sequence_concat (packets : List Packet) (packet : Packet) (t : Time) :
    ((ex.deliver (packets ++ [packet])).book.toSnapshot t).sequence =
      ex.start + packet.reached := by
  rw [deliver, List.map_append, List.map_singleton, OrderbookFeed.handleAll_concat]
  simp [OrderbookFeed.handle, OrderbookState.toSnapshot, OrderbookState.apply, message_id]

/-- Sizes and levels are the same thing. -/
theorem levels_iff {sizes : Decimal → Option Decimal} {book : Decimal → Decimal}
    {levels : List Level} (hlevels : ∀ l, l ∈ levels ↔
      sizes l.price = some l.quantity ∧ l.quantity ≠ 0) :
    (∀ l, l ∈ levels ↔ book l.price = l.quantity ∧ l.quantity ≠ 0) ↔
      ∀ p, (sizes p).getD 0 = book p := by
  constructor
  · intro h p
    by_cases hzero : (sizes p).getD 0 = 0
    · by_contra hne
      have hbook : book p ≠ 0 := fun e => hne (hzero.trans e.symm)
      have hmem := (hlevels ⟨p, book p⟩).mp ((h ⟨p, book p⟩).mpr ⟨rfl, hbook⟩)
      exact hne (by rw [hmem.1]; rfl)
    · cases hsize : sizes p with
      | none => simp [hsize] at hzero
      | some q =>
        rw [hsize] at hzero
        exact ((h ⟨p, q⟩).mp ((hlevels ⟨p, q⟩).mpr ⟨hsize, hzero⟩)).1.symm
  · intro h l
    rw [hlevels, ← h]
    constructor
    · rintro ⟨hsize, hne⟩
      exact ⟨by rw [hsize]; rfl, hne⟩
    · rintro ⟨hsize, hne⟩
      cases hs : sizes l.price with
      | none =>
        rw [hs] at hsize
        exact absurd hsize.symm hne
      | some q =>
        rw [hs] at hsize
        exact ⟨by rw [← hsize]; rfl, hne⟩

/-- Both sides are the true ones just when the messages describe the true book. -/
theorem levels_true_iff {ms : List OrderbookMessage} {t : Time} (m : Nat) :
    ((∀ l, l ∈ (((OrderbookState.new ex.symbol).applyAll ms).toSnapshot t).bids ↔
      ex.trueBook m .bid l.price = l.quantity ∧ l.quantity ≠ 0) ∧
      ∀ l, l ∈ (((OrderbookState.new ex.symbol).applyAll ms).toSnapshot t).asks ↔
        ex.trueBook m .ask l.price = l.quantity ∧ l.quantity ≠ 0) ↔
      referenceBook ms = ex.trueBook m := by
  rw [levels_iff (OrderbookState.applyAll_bids t ex.symbol ms),
    levels_iff (OrderbookState.applyAll_asks t ex.symbol ms)]
  constructor
  · rintro ⟨hbid, hask⟩
    funext side p
    cases side with
    | bid => exact hbid p
    | ask => exact hask p
  · intro h
    rw [← h]
    exact ⟨fun _ => rfl, fun _ => rfl⟩

/-- A snapshot is true just when its messages describe the true book at its id. -/
theorem trueAt_iff {ms : List OrderbookMessage} {t : Time} {n : Nat}
    (hid : (((OrderbookState.new ex.symbol).applyAll ms).toSnapshot t).sequence = ex.start + n) :
    ex.TrueAt (((OrderbookState.new ex.symbol).applyAll ms).toSnapshot t) ↔
      referenceBook ms = ex.trueBook n := by
  constructor
  · rintro ⟨m, hm, hlevels⟩
    have hmn : m = n := by
      rw [hid] at hm
      omega
    rw [← hmn]
    exact (ex.levels_true_iff m).mp hlevels
  · exact fun h => ⟨n, hid, (ex.levels_true_iff n).mpr h⟩

theorem dispatched_concat (packets : List Packet) (packet : Packet) :
    (ex.deliver (packets ++ [packet])).dispatched = (ex.deliver packets).dispatched ++
      [(ex.deliver (packets ++ [packet])).book.toSnapshot (ex.message packet).ts] := by
  rw [deliver, List.map_append, List.map_singleton, OrderbookFeed.handleAll_concat]
  rfl

theorem zip_concat (packets : List Packet) (packet : Packet) :
    (packets ++ [packet]).zip (ex.deliver (packets ++ [packet])).dispatched =
      packets.zip (ex.deliver packets).dispatched ++
        [(packet, (ex.deliver (packets ++ [packet])).book.toSnapshot (ex.message packet).ts)] := by
  have hlength : packets.length = (ex.deliver packets).dispatched.length := by
    rw [deliver, OrderbookFeed.length_dispatched, List.length_map]
  rw [dispatched_concat, List.zip_append hlength]
  rfl

/-- The latest dispatch carries the id that the last message leads to. -/
theorem getLast?_zip (packets : List Packet) :
    (packets.zip (ex.deliver packets).dispatched).getLast?.map (·.2.sequence) =
      packets.getLast?.map fun last => ex.start + (last.reached : Int) := by
  cases packets using List.reverseRecOn with
  | nil => rfl
  | append_singleton packets packet =>
    rw [zip_concat, List.getLast?_concat, List.getLast?_concat, Option.map_some, sequence_concat]
    rfl

/-- A change is dispatched under no lesser id than what came before it if and only if it
leads to no earlier book. -/
theorem not_before_iff (packets : List Packet) (packet : Packet) :
    (∀ x ∈ (packets.zip (ex.deliver packets).dispatched).getLast?, packet.isChange →
      x.2.sequence ≤ ((ex.deliver (packets ++ [packet])).book.toSnapshot
        (ex.message packet).ts).sequence) ↔
      (packet.isChange → ∀ p, packets.getLast? = some p → p.reached ≤ packet.reached) := by
  have hlast := ex.getLast?_zip packets
  rw [sequence_concat]
  cases hzip : (packets.zip (ex.deliver packets).dispatched).getLast? with
  | none =>
    rw [hzip] at hlast
    have hnone := Option.map_eq_none_iff.mp hlast.symm
    simp [hnone]
  | some x =>
    rw [hzip] at hlast
    obtain ⟨p, hp, hx⟩ := Option.map_eq_some_iff.mp hlast.symm
    simp only [hp, Option.mem_some_iff, forall_eq', ← hx, Option.some.injEq]
    constructor
    · intro h hchange
      have hle := h hchange
      omega
    · intro h hchange
      have hle := h hchange
      omega

/-- What one more message adds to the law. -/
theorem faithful_concat (packets : List Packet) (packet : Packet) :
    ex.Faithful (packets ++ [packet]) ↔ ex.Faithful packets ∧
      ex.TrueAt ((ex.deliver (packets ++ [packet])).book.toSnapshot (ex.message packet).ts) ∧
      (packet.isChange → ∀ p, packets.getLast? = some p → p.reached ≤ packet.reached) := by
  have hnext := ex.not_before_iff packets packet
  constructor
  · rintro ⟨htrue, hordered⟩
    rw [dispatched_concat] at htrue
    rw [zip_concat, List.isChain_append] at hordered
    refine ⟨⟨fun s hs => htrue s (List.mem_append_left _ hs), hordered.1⟩,
      htrue _ (by simp), hnext.mp fun x hx => hordered.2.2 x hx _ rfl⟩
  · rintro ⟨⟨htrue, hordered⟩, hnew, hreached⟩
    refine ⟨fun s hs => ?_, ?_⟩
    · rw [dispatched_concat] at hs
      cases List.mem_append.mp hs with
      | inl hs => exact htrue s hs
      | inr hs => exact List.mem_singleton.mp hs ▸ hnew
    · rw [zip_concat, List.isChain_append]
      refine ⟨hordered, by simp, ?_⟩
      rintro x hx y ⟨⟩
      exact hnext.mpr hreached x hx

/-- The subscribers see the true book if and only if every change arrives on a book
that it turns into the true one. -/
theorem faithful_iff_inStep (packets : List Packet) : ex.Faithful packets ↔ ex.InStep packets := by
  induction packets using List.reverseRecOn with
  | nil =>
    have hfaithful : ex.Faithful [] := ⟨by simp [deliver, OrderbookFeed.handleAll,
      OrderbookFeed.new], by simp⟩
    have hstep : ex.InStep [] := fun before packet after h => by simp at h
    exact ⟨fun _ => hstep, fun _ => hfaithful⟩
  | append_singleton packets packet ih =>
    rw [faithful_concat, inStep_concat, ih, and_congr_right_iff]
    intro hstep
    have hshown := ex.referenceBook_of_inStep hstep
    have hid := ex.sequence_concat packets packet (ex.message packet).ts
    rw [deliver, OrderbookFeed.book_handleAll] at hid ⊢
    rw [ex.trueAt_iff hid, List.map_append, List.map_singleton, referenceBook_concat, hshown]
    cases packet with
    | snapshot n =>
      simp only [message, ex.snapshot_type, if_true]
      simpa [Packet.isChange, Fits, Packet.reached] using ex.write_snapshot n
    | change n =>
      simp only [message, ex.change_delta, Bool.false_eq_true, if_false, Packet.isChange, Fits,
        Packet.reached, true_implies]
      exact and_comm

/-- As the handler dispatches at every message, it keeps to the law if and only if every
change directly follows the message before. -/
theorem lawful_iff_consecutive (packets : List Packet) :
    ex.Lawful packets ↔ Consecutive packets := by
  constructor
  · intro h before packet after heq
    by_contra hbroken
    have hquiet := h.quiet before packet after heq
      ⟨before, packet, [], rfl, hbroken, fun _ hp => absurd hp List.not_mem_nil⟩
    rw [dispatched_concat] at hquiet
    simpa using congrArg List.length hquiet
  · intro h
    refine ⟨(ex.faithful_iff_inStep packets).mpr (ex.inStep_of_consecutive h), ?_⟩
    rintro before packet after heq ⟨before', packet', after', heq', hbroken, -⟩
    refine absurd (h before' packet' (after' ++ after) ?_) hbroken
    rw [heq, List.append_cons, heq', List.append_assoc, List.cons_append]

theorem sinceSnapshot_cons (m : OrderbookMessage) {ms : List OrderbookMessage}
    (h : ∀ k ∈ ms, k.isSnapshot = false) : sinceSnapshot (m :: ms) = m :: ms := by
  rw [sinceSnapshot, if_neg]
  simpa using h

/-- Any opening levels and any changes make an exchange. -/
def ofChanges (symbol : Symbol) (start : Int) (opening : BookSide → List RawLevel)
    (levels : Nat → BookSide → List RawLevel) : Exchange where
  symbol := symbol
  start := start
  change n := ⟨some "delta", some (levels n .bid), some (levels n .ask), some (start + n + 1), 0⟩
  snapshot n := ⟨some "snapshot", some (opening .bid ++ (List.range n).flatMap (levels · .bid)),
    some (opening .ask ++ (List.range n).flatMap (levels · .ask)), some (start + n), 0⟩
  change_delta _ := rfl
  change_id _ := rfl
  snapshot_type _ := rfl
  snapshot_id _ := rfl
  shows n := by
    funext side p
    rw [referenceBook, referenceBook, lastSize, lastSize, sinceSnapshot_cons _ (by simp),
      sinceSnapshot_cons _ (by simp [OrderbookMessage.isSnapshot])]
    cases side <;> simp [OrderbookMessage.levels, List.flatMap_map]

/-- A bid at 100; then a better bid at 101, then an ask at 103. -/
def betterBid : Exchange :=
  ofChanges "BTC" 1 (fun side => match side with
      | .bid => [⟨⟨100, 0⟩, ⟨1, 0⟩⟩]
      | .ask => [])
    (fun n side => match n, side with
      | 0, .bid => [⟨⟨101, 0⟩, ⟨5, 0⟩⟩]
      | 1, .ask => [⟨⟨103, 0⟩, ⟨2, 0⟩⟩]
      | _, _ => [])

/-- Without the first change the second is dispatched on a book that lacks the better
bid, and nothing is logged. -/
theorem lost_change_dispatched :
    let feed := betterBid.deliver [.snapshot 0, .change 1]
    feed.dispatched.map (fun s => (s.sequence, s.bestBid)) =
        [(1, some ⟨100, 1⟩), (3, some ⟨100, 1⟩)] ∧
      betterBid.trueBook 2 .bid 101 = 5 ∧ feed.warnings = [] ∧
      ¬ betterBid.Lawful [.snapshot 0, .change 1] := by
  intro feed
  have hbest : feed.dispatched.map (fun s => (s.sequence, s.bestBid)) =
      [(1, some ⟨100, 1⟩), (3, some ⟨100, 1⟩)] := by decide +kernel
  have htrue : betterBid.trueBook 2 .bid 101 = 5 := by decide +kernel
  refine ⟨hbest, htrue, by decide +kernel, fun h => ?_⟩
  have hlast : feed.dispatched.getLast?.map (fun s => (s.sequence, decide (⟨101, 5⟩ ∈ s.bids))) =
      some (3, false) := by decide +kernel
  obtain ⟨s, hs, hpair⟩ := Option.map_eq_some_iff.mp hlast
  obtain ⟨n, hn, hbids, -⟩ := h.true s (List.mem_of_getLast? hs)
  rw [Prod.mk.injEq, decide_eq_false_iff_not] at hpair
  have hstart : betterBid.start = 1 := rfl
  have htwo : n = 2 := by omega
  subst htwo
  exact hpair.2 ((hbids ⟨101, 5⟩).mpr ⟨htrue, by decide⟩)

end Exchange

end Trading
