import Trading.OrderSystem
import Trading.PaperInvariants

/-!
# When the manager agrees with the venue

A task that executed a fill on the cached order has yet to deliver the update
of that transition. The ghost value of a task is the id of that order. Where no
task is in that position the cache holds, for every order, the update that was
handed over last, while the venue holds the update it produced last.
-/
namespace Trading

open Async Data Relation PaperVenue PaperWorld

/-- What the transitions of venue and manager look at. -/
structure SyncCore where
  venue : PaperVenue
  trace : List Notification
  orders : Dict OrderId Order
  received : List Order

def OmsWorld.sync {J ρ : Type} (w : OmsWorld J ρ) : SyncCore :=
  ⟨w.venue, w.trace, w.env.oms.orders, w.env.oms.received⟩

/-- The transitions, each made by a task that is (`some oid`) or is not (`none`)
between a fill it executed on the cache and the update that goes with it. -/
inductive SyncStep (cfg : PaperConfig) :
    Option OrderId × SyncCore → Option OrderId × SyncCore → Prop where
  | venue {d : Option OrderId} {v v' : PaperVenue} {tr tr' : List Notification}
      {orders : Dict OrderId Order} {received : List Order}
      (hstep : PaperStep cfg (fun _ => True) (v, tr) (v', tr')) :
      SyncStep cfg (d, ⟨v, tr, orders, received⟩) (d, ⟨v', tr', orders, received⟩)
  | execute {v : PaperVenue} {tr : List Notification} {orders : Dict OrderId Order}
      {received : List Order} {oid : OrderId} (updated : Order) :
      SyncStep cfg (none, ⟨v, tr, orders, received⟩)
        (some oid, ⟨v, tr, orders.set oid updated, received⟩)
  | handOver {d : Option OrderId} {v : PaperVenue} {tr : List Notification}
      {orders : Dict OrderId Order} {received : List Order} {u : Order}
      (hd : d = none ∨ d = some u.orderId) (hu : u ∈ updatesOf tr) :
      SyncStep cfg (d, ⟨v, tr, orders, received⟩)
        (none, ⟨v, tr, orders.set u.orderId u, received ++ [u]⟩)

/-- What never gets lost: cached orders stay cached, announced updates announced. -/
structure SyncLater (c c' : SyncCore) : Prop where
  orders : ∀ oid, c.orders.get oid ≠ none → c'.orders.get oid ≠ none
  updates : ∀ u ∈ updatesOf c.trace, u ∈ updatesOf c'.trace

theorem SyncLater.refl (c : SyncCore) : SyncLater c c := ⟨fun _ h => h, fun _ h => h⟩

theorem SyncLater.trans {c c' c'' : SyncCore} (h : SyncLater c c') (h' : SyncLater c' c'') :
    SyncLater c c'' :=
  ⟨fun oid ho => h'.orders oid (h.orders oid ho), fun u hu => h'.updates u (h.updates u hu)⟩

/-- The cache mirrors the updates handed over, but for orders some task is about
to hand over. -/
structure SyncInv (c : SyncCore) (ds : List (Option OrderId)) : Prop where
  maps : PaperMaps (c.venue, c.trace)
  received : ∀ u ∈ c.received, u ∈ updatesOf c.trace
  mirror : ∀ oid, some oid ∉ ds → c.orders.get oid = latest Order.orderId oid c.received

section Steps

variable {cfg : PaperConfig}

theorem paperStep_updates {B : OrderbookSnapshot → Prop} {c c' : PaperCore}
    (h : PaperStep cfg B c c') : ∀ u ∈ updatesOf c.2, u ∈ updatesOf c'.2 := by
  intro u hu
  cases h with
  | observe => exact hu
  | place => simp [hu]
  | fill => simp [hu]
  | cancel => simp [hu]

theorem syncStep_later {x y : Option OrderId × SyncCore} (h : SyncStep cfg x y) :
    SyncLater x.2 y.2 := by
  cases h with
  | venue hstep => exact ⟨fun _ ho => ho, paperStep_updates hstep⟩
  | execute updated => exact ⟨fun _ ho => Dict.get_set_ne_none _ (.inr ho), fun _ hu => hu⟩
  | handOver hd hu => exact ⟨fun _ ho => Dict.get_set_ne_none _ (.inr ho), fun _ hu => hu⟩

/-- One transition of one task, the ghost values of the others around it. -/
theorem syncStep_inv {x y : Option OrderId × SyncCore} (h : SyncStep cfg x y)
    {before after : List (Option OrderId)} (hinv : SyncInv x.2 (before ++ x.1 :: after)) :
    SyncInv y.2 (before ++ y.1 :: after) := by
  cases h with
  | venue hstep =>
    exact ⟨maps_step hstep hinv.maps, fun u hu => paperStep_updates hstep u (hinv.received u hu),
      hinv.mirror⟩
  | @execute _ _ _ _ oid updated =>
    refine ⟨hinv.maps, hinv.received, fun j hj => ?_⟩
    have hne : j ≠ oid := by
      rintro rfl
      simp at hj
    rw [Dict.get_set_other _ _ hne]
    apply hinv.mirror j
    intro hmem
    apply hj
    have hcases : some j ∈ before ∨ some j ∈ after := by simpa using hmem
    rcases hcases with hm | hm <;> simp [hm]
  | @handOver d _ _ _ _ u hd hu =>
    refine ⟨hinv.maps, ?_, fun j hj => ?_⟩
    · intro w hw
      rcases List.mem_append.mp hw with hw | hw
      · exact hinv.received w hw
      · rw [List.mem_singleton.mp hw]
        exact hu
    · simp only [Dict.get_set, latest_concat]
      by_cases hju : j = u.orderId
      · rw [if_pos hju, if_pos hju.symm]
      · rw [if_neg hju, if_neg fun e => hju e.symm]
        apply hinv.mirror j
        intro hmem
        apply hj
        have hcases : some j ∈ before ∨ some j = d ∨ some j ∈ after := by simpa using hmem
        rcases hcases with hm | hm | hm
        · simp [hm]
        · rcases hd with hd | hd
          · rw [hd] at hm
            cases hm
          · rw [hd] at hm
            exact absurd (Option.some.inj hm) hju
        · simp [hm]

/-- The transitions of one block. -/
abbrev SyncSteps (cfg : PaperConfig) := ReflTransGen (SyncStep cfg)

theorem syncSteps_inv {x y : Option OrderId × SyncCore} (h : SyncSteps cfg x y)
    {before after : List (Option OrderId)} (hinv : SyncInv x.2 (before ++ x.1 :: after)) :
    SyncLater x.2 y.2 ∧ SyncInv y.2 (before ++ y.1 :: after) := by
  induction h with
  | refl => exact ⟨.refl _, hinv⟩
  | tail _ hstep ih => exact ⟨ih.1.trans (syncStep_later hstep), syncStep_inv hstep ih.2⟩

end Steps

section Follows

variable {J ρ : Type}

def syncContract (J ρ : Type) (cfg : PaperConfig) : Contract (OmsWorld J ρ) (Option OrderId) where
  rely s t := SyncLater s.sync t.sync
  guar d s d' s' := SyncSteps cfg (d, s.sync) (d', s'.sync)
  idle d := d = none
  rely_refl _ := .refl _
  rely_trans h h' := h.trans h'

/-- Assertions about the state that later states keep. -/
def Stable (K : SyncCore → Prop) : Prop := ∀ {c c'}, SyncLater c c' → K c → K c'

/-- Since the block began, transitions that leave the task with ghost value `none`. -/
def Clean (cfg : PaperConfig) (K : SyncCore → Prop) (d : Option OrderId) (s₀ s : OmsWorld J ρ) :
    Prop :=
  SyncSteps cfg (d, s₀.sync) (none, s.sync) ∧ K s.sync

/-- The same, or an order `oid` executed in the cache whose update is to come. -/
def Owing (cfg : PaperConfig) (oid : OrderId) (K : SyncCore → Prop) (d : Option OrderId)
    (s₀ s : OmsWorld J ρ) : Prop :=
  ∃ d', (d' = none ∨ d' = some oid) ∧ SyncSteps cfg (d, s₀.sync) (d', s.sync) ∧ K s.sync

/-- Assertions that only see the core and survive a suspension. -/
structure Waits (cfg : PaperConfig) (I : Option OrderId → OmsWorld J ρ → OmsWorld J ρ → Prop) :
    Prop where
  same : ∀ {d s₀ s s'}, s'.sync = s.sync → I d s₀ s → I d s₀ s'
  wait : ∀ {d s₀ s}, I d s₀ s → ∃ d', (syncContract J ρ cfg).guar d s₀ d' s ∧
    ∀ t, (syncContract J ρ cfg).rely s t → I d' t t

variable {cfg : PaperConfig} {K : SyncCore → Prop}

theorem waits_clean (hK : Stable K) : Waits (J := J) (ρ := ρ) cfg (Clean cfg K) where
  same hs h := by
    unfold Clean
    rw [hs]
    exact h
  wait h := ⟨none, h.1, fun _ ht => ⟨.refl, hK ht h.2⟩⟩

theorem waits_owing (hK : Stable K) (oid : OrderId) :
    Waits (J := J) (ρ := ρ) cfg (Owing cfg oid K) where
  same hs h := by
    unfold Owing
    rw [hs]
    exact h
  wait h := by
    obtain ⟨d', hd', hsteps, hk⟩ := h
    exact ⟨d', hsteps, fun _ ht => ⟨d', hd', .refl, hK ht hk⟩⟩

variable {I : Option OrderId → OmsWorld J ρ → OmsWorld J ρ → Prop}
  {X : PyError → Option OrderId → OmsWorld J ρ → OmsWorld J ρ → Prop}
  {d : Option OrderId} {s₀ s : OmsWorld J ρ}

theorem follows_unseen {S α : Type} (part : Part S (OmsWorld J ρ)) (hI : Waits cfg I)
    {p : Coro S α} (hp : p.NoThrow)
    (hput : ∀ (v : S) (s : OmsWorld J ρ), (part.put v s).sync = s.sync) (h : I d s₀ s) :
    (syncContract J ρ cfg).Follows (fun _ => I) X (@Co.lift S _ _ _ part p) d s₀ s :=
  Contract.follows_lift_noThrow hp (fun _ _ s v h => hI.same (hput v s) h)
    (fun _ _ _ h => hI.wait h) h

/-- A journal write, from inside the manager's callbacks. -/
theorem follows_journal (hI : Waits cfg I) {p : Coro J Unit} (hp : p.NoThrow) (h : I d s₀ s) :
    (syncContract J ρ cfg).Follows (fun _ => I) X
      (((p.lift : Coro (OrderManager J) Unit).lift : Coro (OmsEnv J ρ) Unit).lift) d s₀ s := by
  rw [Co.lift_lift, Co.lift_lift]
  exact follows_unseen _ hI hp (fun _ _ => rfl) h

/-- A loop over callbacks that belong to somebody else. -/
theorem follows_foreign {α : Type} (cbs : List (α → Coro ρ Unit)) (x : α)
    (hquiet : ∀ cb ∈ cbs, (cb x).NoThrow) (hI : Waits cfg I) (h : I d s₀ s) :
    (syncContract J ρ cfg).Follows (fun _ => I) X
      (Co.forEach ((cbs.map fun cb y => ((cb y).lift : Coro (OmsEnv J ρ) Unit)).map
        fun cb y => ((cb y).lift : Coro (OmsWorld J ρ) Unit)) fun cb => cb x) d s₀ s := by
  refine Contract.follows_forEach _ _ ?_ h
  intro cb hcb d s₀ s h
  rw [List.map_map] at hcb
  obtain ⟨p, hp, rfl⟩ := List.mem_map.mp hcb
  simp only [Function.comp]
  rw [Co.lift_lift]
  exact follows_unseen _ hI (hquiet p hp) (fun _ _ => rfl) h

/-- The order `oid` is cached. -/
def Cached (oid : OrderId) (c : SyncCore) : Prop := c.orders.get oid ≠ none

theorem stable_cached (oid : OrderId) : Stable (Cached oid) := fun h hc => h.orders oid hc

theorem stable_true : Stable fun _ => True := fun _ _ => trivial

theorem Stable.and {K' : SyncCore → Prop} (h : Stable K) (h' : Stable K') :
    Stable fun c => K c ∧ K' c :=
  fun hl hc => ⟨h hl hc.1, h' hl hc.2⟩

/-- An exception ends a task only between its transitions. -/
abbrev Raised (cfg : PaperConfig) :
    PyError → Option OrderId → OmsWorld J ρ → OmsWorld J ρ → Prop :=
  fun _ => Clean cfg fun _ => True

theorem Clean.weaken {K' : SyncCore → Prop} (h : Clean cfg K d s₀ s) (hk : ∀ c, K c → K' c) :
    Clean cfg K' d s₀ s :=
  ⟨h.1, hk _ h.2⟩

/-- Handing over an update settles its order. -/
theorem follows_onOrderUpdate {journal : OrderJournal J} (hj : journal.Reliable) (hK : Stable K)
    {u : Order} (hu : ∀ c, K c → u ∈ updatesOf c.trace) (h : Owing cfg u.orderId K d s₀ s) :
    (syncContract J ρ cfg).Follows (fun _ => Clean cfg fun c => K c ∧ Cached u.orderId c) X
      (((OrderManager.onOrderUpdate journal u).lift : Coro (OmsEnv J ρ) Unit).lift) d s₀ s := by
  simp only [OrderManager.onOrderUpdate, Co.bind_eq, Co.lift_bind, Contract.follows_bind,
    follows_writeOms]
  refine follows_journal (waits_clean (hK.and (stable_cached _))) (hj.writeOrder u) ?_
  obtain ⟨d', hd', hsteps, hk⟩ := h
  have hstep : SyncStep cfg (d', s.sync) (none, ⟨s.venue, s.trace,
      s.env.oms.orders.set u.orderId u, s.env.oms.received ++ [u]⟩) :=
    .handOver hd' (hu _ hk)
  exact ⟨hsteps.tail hstep, hK (syncStep_later hstep) hk, Dict.get_set_ne_none _ (.inl rfl)⟩

/-- Executing a fill leaves its order owing an update. -/
theorem follows_onFill {journal : OrderJournal J} (hj : journal.Reliable) (hK : Stable K)
    {f : Fill} (h : Clean cfg K d s₀ s) :
    (syncContract J ρ cfg).Follows (fun _ => Owing cfg f.orderId K) (Raised cfg)
      (((OrderManager.onFill journal f).lift : Coro (OmsEnv J ρ) Unit).lift) d s₀ s := by
  simp only [OrderManager.onFill, Co.bind_eq, Co.lift_bind, Contract.follows_bind]
  refine (follows_journal (waits_clean hK) (hj.writeFill f) h).mono (fun _ d s₀ s h => ?_)
    (fun _ _ _ _ h => h)
  rw [Contract.follows_bind, follows_readOms]
  cases hget : s.env.oms.orders.get f.orderId with
  | none => exact ⟨none, .inl rfl, h.1, h.2⟩
  | some order =>
    cases hex : order.executed f with
    | error e =>
      simp only [Co.ofExcept, hex, Co.lift_bind, Contract.follows_bind]
      exact h.weaken fun _ _ => trivial
    | ok updated =>
      simp only [Co.ofExcept, hex, Co.lift_bind, Contract.follows_bind]
      refine follows_journal (waits_owing hK _) (hj.writeOrder updated) ?_
      have hstep : SyncStep cfg (none, s.sync) (some f.orderId, ⟨s.venue, s.trace,
          s.env.oms.orders.set f.orderId updated, s.env.oms.received⟩) := .execute updated
      exact ⟨some f.orderId, .inr rfl, h.1.tail hstep, hK (syncStep_later hstep) h.2⟩

variable {journal : OrderJournal J} {before after : Subscribers ρ}

/-- A loop over the callbacks in which the manager's comes in the middle. -/
theorem follows_around {α : Type} {x : α} (ours : α → Coro (OmsWorld J ρ) Unit)
    {I I' : Option OrderId → OmsWorld J ρ → OmsWorld J ρ → Prop} (hI : Waits cfg I)
    (hI' : Waits cfg I') (first last : List (α → Coro ρ Unit))
    (hfirst : ∀ cb ∈ first, (cb x).NoThrow) (hlast : ∀ cb ∈ last, (cb x).NoThrow)
    (hours : ∀ d s₀ s, I d s₀ s → (syncContract J ρ cfg).Follows (fun _ => I') X (ours x) d s₀ s)
    (h : I d s₀ s) :
    (syncContract J ρ cfg).Follows (fun _ => I') X
      (Co.forEach ((first.map fun cb y => ((cb y).lift : Coro (OmsEnv J ρ) Unit)).map
          (fun cb y => ((cb y).lift : Coro (OmsWorld J ρ) Unit)) ++ ours ::
        (last.map fun cb y => ((cb y).lift : Coro (OmsEnv J ρ) Unit)).map
          fun cb y => ((cb y).lift : Coro (OmsWorld J ρ) Unit)) fun cb => cb x) d s₀ s := by
  rw [Co.forEach_append, Contract.follows_bind]
  refine (follows_foreign first x hfirst hI h).mono (fun _ d s₀ s h => ?_) (fun _ _ _ _ h => h)
  rw [Co.forEach_cons, Contract.follows_bind]
  refine (hours d s₀ s h).mono (fun _ d s₀ s h => ?_) (fun _ _ _ _ h => h)
  exact follows_foreign last x hlast hI' h

theorem follows_notifyOrder (hj : journal.Reliable) (hb : before.Quiet) (ha : after.Quiet)
    (hK : Stable K) {u : Order} (hu : ∀ c, K c → u ∈ updatesOf c.trace)
    (h : Owing cfg u.orderId K d s₀ s) :
    (syncContract J ρ cfg).Follows (fun _ => Clean cfg fun c => K c ∧ Cached u.orderId c) X
      (notifyOrder (omsSubscribers journal before after) u) d s₀ s := by
  have hloop := follows_around (X := X)
    (fun o => ((OrderManager.onOrderUpdate journal o).lift : Coro (OmsEnv J ρ) Unit).lift)
    (waits_owing hK u.orderId) (waits_clean (hK.and (stable_cached _)))
    before.orderCbs after.orderCbs (fun cb hcb => hb.order cb hcb u)
    (fun cb hcb => ha.order cb hcb u) (fun _ _ _ h => follows_onOrderUpdate hj hK hu h) h
  simpa [notifyOrder, omsSubscribers, Subscribers.lift] using hloop

theorem follows_notifyFill (hj : journal.Reliable) (hb : before.Quiet) (ha : after.Quiet)
    (hK : Stable K) {f : Fill} (h : Clean cfg K d s₀ s) :
    (syncContract J ρ cfg).Follows (fun _ => Owing cfg f.orderId K) (Raised cfg)
      (notifyFill (omsSubscribers journal before after) f) d s₀ s := by
  have hloop := follows_around (X := Raised cfg)
    (fun g => ((OrderManager.onFill journal g).lift : Coro (OmsEnv J ρ) Unit).lift)
    (waits_clean hK) (waits_owing hK f.orderId) before.fillCbs after.fillCbs
    (fun cb hcb => hb.fill cb hcb f) (fun cb hcb => ha.fill cb hcb f)
    (fun _ _ _ h => follows_onFill hj hK h) h
  simpa [notifyFill, omsSubscribers, Subscribers.lift] using hloop

/-- A transition of the venue, in a block that owes nothing. -/
theorem Clean.venue {K' : SyncCore → Prop} (hK : Stable K) (h : Clean cfg K d s₀ s)
    {s' : OmsWorld J ρ} (henv : s'.env = s.env)
    (hstep : PaperStep cfg (fun _ => True) s.core s'.core) (hk : ∀ c, K c →
      (∀ u ∈ updatesOf s'.trace, u ∈ updatesOf c.trace) → K' c) :
    Clean cfg K' d s₀ s' := by
  have hsync : SyncStep cfg (none, s.sync) (none, s'.sync) := by
    unfold OmsWorld.sync
    rw [henv]
    exact .venue hstep
  exact ⟨h.1.tail hsync, hk _ (hK (syncStep_later hsync) h.2) fun _ hu => hu⟩

theorem Clean.owing (h : Clean cfg K d s₀ s) (oid : OrderId) : Owing cfg oid K d s₀ s :=
  ⟨none, .inl rfl, h.1, h.2⟩

/-- The update `u` has been announced. -/
def Announced (u : Order) (c : SyncCore) : Prop := u ∈ updatesOf c.trace

theorem stable_announced (u : Order) : Stable (Announced u) := fun h hu => h.updates u hu

/-- An update just announced is handed over by the loops that follow. -/
theorem follows_announce (hj : journal.Reliable) (hb : before.Quiet) (ha : after.Quiet)
    (hK : Stable K) {u : Order} {s' : OmsWorld J ρ} (h : Clean cfg K d s₀ s)
    (henv : s'.env = s.env) (hstep : PaperStep cfg (fun _ => True) s.core s'.core)
    (hu : u ∈ updatesOf s'.trace) :
    (syncContract J ρ cfg).Follows (fun _ => Clean cfg fun c => K c ∧ Cached u.orderId c) X
      (notifyOrder (omsSubscribers journal before after) u) d s₀ s' := by
  have hclean : Clean cfg (fun c => K c ∧ Announced u c) d s₀ s' :=
    h.venue hK henv hstep fun _ hk hsub => ⟨hk, hsub u hu⟩
  exact (follows_notifyOrder hj hb ha (hK.and (stable_announced u)) (fun _ hk => hk.2)
    (hclean.owing _)).mono (fun _ _ _ _ h => h.weaken fun _ hk => ⟨hk.1.1, hk.2⟩)
    (fun _ _ _ _ h => h)

theorem announces_sync (hj : journal.Reliable) (hb : before.Quiet) (ha : after.Quiet)
    (hK : Stable K) :
    Announces (syncContract J ρ cfg) cfg (fun _ => True) (omsSubscribers journal before after)
      (Clean cfg K) (Raised cfg) where
  tick h := h
  raised _ h := h.weaken fun _ _ => trivial
  observe _ h := h.venue hK rfl (.observe _ _ trivial) fun _ hk _ => hk
  fill {d s₀} s {oid order book now f updated} hopen hbook hfill hup h := by
    have hstep : PaperStep cfg (fun _ => True) s.core
        (store updated f s.venue, s.trace ++ [.fill f, .update updated]) :=
      .fill hopen (.inl trivial) hfill hup
    have hid : f.orderId = updated.orderId :=
      (FillEngine.tryFill_describes hfill).orderId.trans (Order.executed_orderId hup).symm
    have hclean : Clean cfg (fun c => K c ∧ Announced updated c) d s₀
        { s with venue := store updated f s.venue, trace := s.trace ++ [.fill f, .update updated] } :=
      h.venue hK rfl hstep fun _ hk hsub => ⟨hk, hsub updated (by simp)⟩
    have hK' : Stable fun c => K c ∧ Announced updated c := hK.and (stable_announced updated)
    rw [Co.bind_eq, Contract.follows_bind]
    refine (follows_notifyFill hj hb ha hK' hclean).mono (fun _ _ _ _ h => ?_) (fun _ _ _ _ h => h)
    rw [hid] at h
    exact (follows_notifyOrder hj hb ha hK' (fun _ hk => hk.2) h).mono
      (fun _ _ _ _ h => h.weaken fun _ hk => hk.1.1) (fun _ _ _ _ h => h)
  cancel {d s₀} s {oid order} now hopen h := by
    refine (follows_announce hj hb ha hK h ?_ ?_ ?_).mono
      (fun _ _ _ _ h => h.weaken fun _ hk => hk.1) (fun _ _ _ _ h => h)
    · rfl
    · exact .cancel now hopen
    · simp

theorem follows_submit (hj : journal.Reliable) (hb : before.Quiet) (ha : after.Quiet)
    (cid : ClientOrderId) (intent : TradeIntent) (h : Clean cfg (fun _ => True) d s₀ s) :
    (syncContract J ρ cfg).Follows (fun _ => Clean cfg fun _ => True) (Raised cfg)
      (OrderManager.submit (PaperVenue.asVenue cfg (omsSubscribers journal before after)) journal
        cid intent) d s₀ s := by
  have hplace : ∀ d s₀ s, Clean cfg (fun _ => True) d s₀ s →
      (syncContract J ρ cfg).Follows (fun oid => Clean cfg (Cached oid)) (Raised cfg)
        (PaperVenue.placeOrder cfg (omsSubscribers journal before after)
          (OrderManager.request cid intent)) d s₀ s := by
    intro d s₀ s h
    refine Announces.placeOrder (Clean cfg fun _ => True)
      (fun oid => announces_sync hj hb ha (stable_cached oid)) (fun h => h) _ ?_ h
    intro d s₀ s now h
    refine (follows_announce hj hb ha stable_true h ?_ ?_ ?_).mono
      (fun _ _ _ _ h => h.weaken fun _ hk => hk.2) (fun _ _ _ _ h => h)
    · rfl
    · exact .place s.venue s.trace _ now
    · simp
  have hnow : (Clock.now.lift : Coro (OmsWorld J ρ) Time) = readNow := rfl
  simp only [OrderManager.submit, Co.bind_eq, hnow, Contract.follows_bind, follows_readNow]
  apply Contract.Follows.caught
  refine (hplace d s₀ s.tick h).mono (fun oid d s₀ s h => ?_) (fun _ _ _ _ h => ⟨h, h⟩)
  simp only [OrderManager.recordSubmission, Co.bind_eq, Co.lift_bind, Contract.follows_bind]
  rw [Co.lift_lift]
  refine (follows_unseen (X := Raised cfg) _ (waits_clean (stable_cached oid)) (hj.writeOrder _)
    (fun _ _ => rfl) h).mono (fun _ d s₀ s h => ?_) (fun _ _ _ _ h => h)
  -- The venue's first update has cached the order, so `setdefault` keeps the cache.
  refine (waits_clean stable_true).same ?_ (h.weaken fun _ _ => trivial)
  have hkept := Dict.setDefault_present h.2
  simp only [OmsWorld.sync] at hkept ⊢
  exact congrArg (fun orders => SyncCore.mk s.venue s.trace orders s.env.oms.received) (hkept _)

theorem follows_cancelEach (hj : journal.Reliable) (hb : before.Quiet) (ha : after.Quiet)
    (orders : List Order) (count : Nat) (h : Clean cfg (fun _ => True) d s₀ s) :
    (syncContract J ρ cfg).Follows (fun _ => Clean cfg fun _ => True) (Raised cfg)
      (OrderManager.cancelEach (PaperVenue.asVenue cfg (omsSubscribers journal before after))
        orders count) d s₀ s := by
  induction orders generalizing count d s₀ s with
  | nil => exact h
  | cons order orders ih =>
    rw [OrderManager.cancelEach, Co.bind_eq, Contract.follows_bind]
    exact ((announces_sync hj hb ha stable_true).cancelOrder order.orderId h).mono
      (fun _ _ _ _ h => ih _ h) (fun _ _ _ _ h => h)

/-- One case per operation. -/
theorem task_omsOp (hj : journal.Reliable) (hb : before.Quiet) (ha : after.Quiet) (op : OmsOp)
    (s : OmsWorld J ρ) :
    (syncContract J ρ cfg).Task (op.prog cfg journal before after) none s := by
  have hstart : Clean cfg (fun _ => True) none s s := ⟨.refl, trivial⟩
  have hends : ∀ {α : Type} (a : α) d (s₀ s : OmsWorld J ρ),
      Clean cfg (fun _ => True) d s₀ s → (syncContract J ρ cfg).Ends d s₀ s :=
    fun _ _ _ _ h => ⟨none, h.1, rfl⟩
  have hrules : Announces (syncContract J ρ cfg) cfg (fun _ => True)
      (omsSubscribers journal before after) (Clean cfg fun _ => True) (Raised cfg) :=
    announces_sync hj hb ha stable_true
  unfold Contract.Task
  cases op with
  | submit cid intent =>
    rw [OmsOp.prog, Contract.follows_bind]
    exact (follows_submit hj hb ha cid intent hstart).mono hends hends
  | cancel oid =>
    rw [OmsOp.prog, Contract.follows_bind]
    exact (hrules.cancelOrder oid hstart).mono hends hends
  | cancelAll symbol =>
    rw [OmsOp.prog, Contract.follows_bind]
    exact (follows_cancelEach hj hb ha _ 0 hstart).mono hends hends
  | onOrderbook snapshot => exact (hrules.onOrderbook trivial hstart).mono hends hends

end Follows

section Quiescent

variable {J ρ : Type} {cfg : PaperConfig} {journal : OrderJournal J}
  {before after : Subscribers ρ}

theorem syncInv_new (j : J) (clock : Clock) (rest : ρ) :
    SyncInv (OmsWorld.new j clock rest).sync [] where
  maps := paperMaps_new
  received u hu := by cases hu
  mirror _ _ := rfl

/-- With no task live, the cache holds what was handed over last, and the venue
what it produced last. -/
theorem sync_of_done (hj : journal.Reliable) (hb : before.Quiet) (ha : after.Quiet)
    {j : J} {clock : Clock} {rest : ρ} {c : Config (OmsWorld J ρ) PyError}
    (hc : Reaches (OmsOp.prog cfg journal before after) (fun _ _ => True)
      ⟨.new j clock rest, []⟩ c) (hdone : c.tasks = []) : SyncInv c.state.sync [] := by
  have hinit : (syncContract J ρ cfg).Holds (fun s => SyncInv s.sync)
      (⟨.new j clock rest, []⟩ : Config (OmsWorld J ρ) PyError) :=
    ⟨[], .nil, syncInv_new j clock rest⟩
  have hholds : (syncContract J ρ cfg).Holds (fun s => SyncInv s.sync) c := by
    refine Contract.reaches_holds ?_ ?_ ?_ hinit hc
    · intro s lb d la d' s' hinv hsteps
      exact syncSteps_inv hsteps hinv
    · rintro s lb d la hinv rfl
      refine ⟨hinv.maps, hinv.received, fun oid hoid => hinv.mirror oid fun hmem => hoid ?_⟩
      simpa using hmem
    · intro s ls op hinv _
      refine ⟨none, ⟨hinv.maps, hinv.received, fun oid hoid => hinv.mirror oid fun hmem => ?_⟩,
        task_omsOp hj hb ha op s⟩
      exact hoid (List.mem_append_left _ hmem)
  obtain ⟨ds, htasks, hinv⟩ := hholds
  rw [hdone] at htasks
  cases htasks
  exact hinv

/-- A venue order is open exactly if it is not terminal. -/
theorem PaperMaps.open_iff {c : PaperCore} (h : PaperMaps c) (o : Order) :
    o ∈ c.1.openOrders.values ↔
      (∃ oid, c.1.allOrders.get oid = some o) ∧ o.status.isTerminal = false := by
  rw [Dict.mem_values]
  constructor
  · rintro ⟨oid, ho⟩
    obtain ⟨hall, hresting⟩ := (h.resting oid o).mp ho
    refine ⟨⟨oid, hall⟩, ?_⟩
    rcases hresting with hs | hs <;> rw [hs] <;> rfl
  · rintro ⟨⟨oid, ho⟩, hlive⟩
    refine ⟨oid, (h.resting oid o).mpr ⟨ho, ?_⟩⟩
    rcases h.status oid o ho with hs | hs | hs | hs
    · exact hs
    all_goals
      rw [hs] at hlive
      cases hlive

end Quiescent

/-- Once every task has finished, manager and venue agree on every order placed
and on the open ones if and only if each order's newest update at the venue is
also the one handed to the manager last. -/
theorem manager_agrees_iff_newest_handed_last {J ρ : Type} (cfg : PaperConfig)
    (journal : OrderJournal J) (before after : Subscribers ρ) (j : J) (clock : Clock) (rest : ρ)
    (c : Config (OmsWorld J ρ) PyError) (hj : journal.Reliable) (hb : before.Quiet)
    (ha : after.Quiet)
    (hc : Reaches (OmsOp.prog cfg journal before after) (fun _ _ => True)
      ⟨.new j clock rest, []⟩ c)
    (hdone : c.tasks = []) :
    ((∀ oid, c.state.venue.allOrders.get oid ≠ none →
        c.state.env.oms.orders.get oid = c.state.venue.allOrders.get oid) ∧
      ∀ o, o ∈ c.state.env.oms.live none ↔ o ∈ c.state.venue.openOrders.values) ↔
    ∀ oid, c.state.venue.allOrders.get oid ≠ none →
      latest Order.orderId oid c.state.env.oms.received =
        latest Order.orderId oid (updatesOf c.state.trace) := by
  have hinv := sync_of_done hj hb ha hc hdone
  have hmirror : ∀ oid, c.state.env.oms.orders.get oid =
      latest Order.orderId oid c.state.env.oms.received := 
    fun oid => hinv.mirror oid List.not_mem_nil
  have hpublished : ∀ oid, c.state.venue.allOrders.get oid =
      latest Order.orderId oid (updatesOf c.state.trace) := hinv.maps.published
  constructor
  · intro h oid hoid
    rw [← hmirror, ← hpublished]
    exact h.1 oid hoid
  · intro h
    have hagree : ∀ oid, c.state.env.oms.orders.get oid = c.state.venue.allOrders.get oid := by
      intro oid
      by_cases hoid : c.state.venue.allOrders.get oid = none
      · rw [hoid, hmirror]
        rw [hpublished] at hoid
        cases hlatest : latest Order.orderId oid c.state.env.oms.received with
        | none => rfl
        | some u =>
          obtain ⟨hu, hid⟩ := latest_mem hlatest
          have hmem := hinv.received u hu
          rw [latest, List.getLast?_eq_none_iff, List.filter_eq_nil_iff] at hoid
          exact absurd (decide_eq_true hid) (hoid u hmem)
      · rw [hmirror, hpublished]
        exact h oid hoid
    refine ⟨fun oid _ => hagree oid, fun o => ?_⟩
    have hopen := hinv.maps.open_iff o
    simp only [OmsWorld.sync] at hopen
    simp only [OrderManager.mem_live, hopen, hagree]

/-- An in-memory journal whose writes wait once before they append. -/
def waitingJournal : OrderJournal OrderTables where
  writeOrder o := Co.yield.bind fun _ => InMemoryOrderJournal.journal.writeOrder o
  writeFill f := Co.yield.bind fun _ => InMemoryOrderJournal.journal.writeFill f
  readOpenOrders := InMemoryOrderJournal.journal.readOpenOrders

/-- Five wanted, two on offer. -/
def buyFive : List (Label OmsOp) :=
  [.call (.onOrderbook ⟨"BTC", [], [⟨100, 2⟩], 0, 0⟩),
    .call (.submit "c1" ⟨"BTC", .buy, .market, 5, none, .gtc, false⟩), .resume 0]

/-- A cancel while the manager is still journaling the partial fill. -/
def cancelOvertakes : List (Label OmsOp) :=
  buyFive ++ [.call (.cancel "paper-1"), .resume 0, .resume 0, .resume 0, .resume 0, .resume 0]

/-- The same cancel once the submission has finished. -/
def cancelFollows : List (Label OmsOp) :=
  buyFive ++ [.resume 0, .resume 0, .resume 0, .resume 0, .call (.cancel "paper-1"), .resume 0]

def buyFiveSystem (labels : List (Label OmsOp)) : Config (OmsWorld OrderTables Unit) PyError :=
  Config.run (OmsOp.prog ⟨.orderbook 0 0 "USDT", 1000, "USDT"⟩ waitingJournal ⟨[], []⟩ ⟨[], []⟩)
    ⟨.new ⟨[], []⟩ ⟨fun n => n, 0⟩ (), []⟩ labels

/-- The update of the partial fill arrives after the cancellation it preceded, so
the manager keeps an order open that the venue has cancelled. -/
theorem cancel_overtakes_fill_update :
    let c := buyFiveSystem cancelOvertakes
    c.tasks.length = 0 ∧
      (c.state.venue.allOrders.get "paper-1").map Order.status = some .cancelled ∧
      (c.state.env.oms.orders.get "paper-1").map Order.status = some .partiallyFilled ∧
      (c.state.env.oms.live none).map Order.orderId = ["paper-1"] ∧
      (c.state.venue.openOrders.values).map Order.orderId = [] := by
  decide +kernel

theorem manager_agrees_when_cancel_follows :
    let c := buyFiveSystem cancelFollows
    c.state.env.oms.orders.get "paper-1" = c.state.venue.allOrders.get "paper-1" ∧
      (c.state.venue.allOrders.get "paper-1").map Order.status = some .cancelled := by
  intro c
  have hj : waitingJournal.Reliable := ⟨fun _ _ => trivial, fun _ _ => trivial⟩
  have hq : (⟨[], []⟩ : Subscribers Unit).Quiet := ⟨by simp, by simp⟩
  have hdone : c.tasks = [] := List.length_eq_zero_iff.mp (by decide +kernel)
  have hnewest : ∀ oid, c.state.venue.allOrders.get oid ≠ none →
      latest Order.orderId oid c.state.env.oms.received =
        latest Order.orderId oid (updatesOf c.state.trace) := by
    have hsame : c.state.env.oms.received = updatesOf c.state.trace := by decide +kernel
    intro oid _
    rw [hsame]
  have hagree := (manager_agrees_iff_newest_handed_last _ waitingJournal ⟨[], []⟩ ⟨[], []⟩ ⟨[], []⟩
    _ () c hj hq hq (.of_run _ cancelFollows fun _ _ _ => trivial) hdone).mpr hnewest
  have hplaced : c.state.venue.allOrders.get "paper-1" ≠ none := by decide +kernel
  exact ⟨hagree.1 "paper-1" hplaced, by decide +kernel⟩

end Trading
