import Trading.OrderManager
import Trading.PaperVenue

/-!
# The order manager over the paper venue

Submissions, cancels and market data are separate tasks over one state. The
manager's callbacks stand between those registered before it and after it.
-/
namespace Trading

open Async Data

/-- The manager, and whatever else subscribes to the venue. -/
structure OmsEnv (J ρ : Type) where
  oms : OrderManager J
  rest : ρ

abbrev OmsWorld (J ρ : Type) := PaperWorld (OmsEnv J ρ)

section Parts

variable {J ρ : Type}

instance : Part (OrderManager J) (OmsEnv J ρ) where
  view e := e.oms
  put m e := { e with oms := m }
  view_put _ _ := rfl
  put_view _ := rfl
  put_put _ _ _ := rfl

instance : Part ρ (OmsEnv J ρ) where
  view e := e.rest
  put r e := { e with rest := r }
  view_put _ _ := rfl
  put_view _ := rfl
  put_put _ _ _ := rfl

instance : Part (OrderManager J) (OmsWorld J ρ) where
  view w := w.env.oms
  put m w := { w with env := { w.env with oms := m } }
  view_put _ _ := rfl
  put_view _ := rfl
  put_put _ _ _ := rfl

def OmsWorld.new (j : J) (clock : Clock) (rest : ρ) : OmsWorld J ρ :=
  ⟨clock, .new, [], ⟨.new j, rest⟩⟩

end Parts

section Atomic

variable {J ρ ℓ : Type} {C : Contract (OmsWorld J ρ) ℓ}
  {X : PyError → ℓ → OmsWorld J ρ → OmsWorld J ρ → Prop} {l : ℓ} {s₀ s : OmsWorld J ρ}

theorem follows_readOms {Q : OrderManager J → ℓ → OmsWorld J ρ → OmsWorld J ρ → Prop} :
    C.Follows Q X
      (((Co.get : Coro (OrderManager J) _).lift : Coro (OmsEnv J ρ) _).lift) l s₀ s ↔
      Q s.env.oms l s₀ s := Iff.rfl

theorem follows_writeOms {Q : Unit → ℓ → OmsWorld J ρ → OmsWorld J ρ → Prop}
    (g : OrderManager J → OrderManager J) :
    C.Follows Q X
      (((Co.modify g : Coro (OrderManager J) Unit).lift : Coro (OmsEnv J ρ) Unit).lift) l s₀ s ↔
      Q () l s₀ { s with env := { s.env with oms := g s.env.oms } } := Iff.rfl

end Atomic

section System

variable {J ρ : Type} (cfg : PaperConfig) (journal : OrderJournal J)
  (before after : Subscribers ρ)

/-- The callbacks registered with the venue, in order. -/
def omsSubscribers : Subscribers (OmsWorld J ρ) :=
  let first : Subscribers (OmsEnv J ρ) := before.lift
  let last : Subscribers (OmsEnv J ρ) := after.lift
  Subscribers.lift
    { orderCbs := first.orderCbs ++ (fun o => (OrderManager.onOrderUpdate journal o).lift) ::
        last.orderCbs
      fillCbs := first.fillCbs ++ (fun f => (OrderManager.onFill journal f).lift) ::
        last.fillCbs }

/-- The tasks: what strategies ask of the manager, and the market data feed. -/
inductive OmsOp where
  | submit (cid : ClientOrderId) (intent : TradeIntent)
  | cancel (oid : OrderId)
  | cancelAll (symbol : Option Symbol)
  | onOrderbook (snapshot : OrderbookSnapshot)
  deriving DecidableEq, Repr

def OmsOp.prog : OmsOp → Coro (OmsWorld J ρ) Unit :=
  let subs := omsSubscribers journal before after
  let venue := PaperVenue.asVenue cfg subs
  fun
  | .submit cid intent => (OrderManager.submit venue journal cid intent).bind fun _ => .pure ()
  | .cancel oid => (OrderManager.cancel venue oid).bind fun _ => .pure ()
  | .cancelAll symbol =>
    (OrderManager.cancelAll (J := J) venue symbol).bind fun _ => .pure ()
  | .onOrderbook snapshot => PaperVenue.onOrderbook cfg subs snapshot

end System

end Trading
