import FastServer.ConnTable
import Mathlib.Data.Multiset.Nodup
import Mathlib.Data.Multiset.Range

namespace FastServer.Ledger

open Core Engine ConnTable

variable {H : Type} {serve : Serve H} {e e' : Engine H} {c c₀ : Connection} {fd : Int}
  {F F' : Multiset Nat}

/-- The ids of the pooled objects a connection holds: those `closeConnection` puts back. -/
def heldIds (c : Connection) : Multiset Nat := (c.pooled.map Prod.snd : List Nat)

/-- The ids held by the entries of a table. -/
def tableIds : GoMap Int Connection → Multiset Nat
  | [] => 0
  | (_, c) :: m => heldIds c + tableIds m

/-- The ids of every object held by a table entry or put back to a pool. -/
def accounted (e : Engine H) : Multiset Nat := tableIds e.connections + (e.returned.map Prod.snd : List Nat)

/-- The objects' ledger, with the ids `F` of objects in flight (leased by the step under way and
not yet stored in an entry or put back): leases hand out `0, 1, …` in order, and every leased
object is held by an entry, put back, or in flight, at most once over the three. -/
structure LedgerOk (e : Engine H) (F : Multiset Nat) : Prop where
  leased_eq : e.leased.map Prod.snd = List.range e.nextObj
  accounted_le : accounted e + F ≤ Multiset.range e.nextObj

section Table

variable {m : GoMap Int Connection} {k : Int}

theorem tableIds_set_of_get (h : m.get k = some c₀) (c : Connection) :
    tableIds (m.set k c) + heldIds c₀ = tableIds m + heldIds c := by
  induction m with
  | nil => cases h
  | cons p m ih =>
      obtain ⟨k', c'⟩ := p
      by_cases hk : k' = k
      · simp only [GoMap.get, hk, if_true, Option.some.injEq] at h
        subst h
        simp only [GoMap.set, hk, if_true, tableIds]
        ac_rfl
      · simp only [GoMap.get, hk, if_false] at h
        simp only [GoMap.set, hk, if_false, tableIds, add_assoc, ih h]

theorem tableIds_delete_le (m : GoMap Int Connection) (k : Int) : tableIds (m.delete k) ≤ tableIds m := by
  induction m with
  | nil => exact le_rfl
  | cons p m ih =>
      obtain ⟨k', c'⟩ := p
      by_cases hk : k' = k
      · simp only [GoMap.delete, hk, if_true, tableIds]
        exact ih.trans (Multiset.le_add_left _ _)
      · simp only [GoMap.delete, hk, if_false, tableIds]
        exact add_le_add_left ih _

theorem tableIds_delete_of_get (h : m.get k = some c₀) : tableIds (m.delete k) + heldIds c₀ ≤ tableIds m := by
  induction m with
  | nil => cases h
  | cons p m ih =>
      obtain ⟨k', c'⟩ := p
      by_cases hk : k' = k
      · simp only [GoMap.get, hk, if_true, Option.some.injEq] at h
        subst h
        simp only [GoMap.delete, hk, if_true, tableIds]
        rw [add_comm]
        exact add_le_add_left (tableIds_delete_le m k) _
      · simp only [GoMap.get, hk, if_false] at h
        simp only [GoMap.delete, hk, if_false, tableIds, add_assoc]
        exact add_le_add_left (ih h) _

end Table

theorem accounted_setConn (h : e.connections.get c.fd = some c₀) :
    accounted (e.setConn c) + heldIds c₀ = accounted e + heldIds c := by
  simp only [accounted, setConn]
  rw [add_right_comm, tableIds_set_of_get h, add_right_comm]

theorem accounted_giveBack (e : Engine H) (k : PoolKind) (id : Nat) :
    accounted (e.giveBack k id) = id ::ₘ accounted e := by
  simp only [accounted, giveBack, List.map_append, List.map_cons, List.map_nil, ← Multiset.coe_add,
    Multiset.coe_singleton, ← Multiset.cons_zero, Multiset.add_cons, add_zero]

theorem accounted_closeConnection_le (e : Engine H) (fd : Int) : accounted (e.closeConnection fd) ≤ accounted e := by
  cases hc : e.connections.get fd with
  | none => rw [closeConnection_of_get_none hc]
  | some c =>
      rw [closeConnection_of_get_some hc]
      calc _ = tableIds (e.connections.delete fd) + heldIds c + (e.returned.map Prod.snd : List Nat) := by
            simp only [accounted, heldIds, List.map_append, ← Multiset.coe_add]
            rw [add_comm (Multiset.ofList _), add_assoc]
        _ ≤ accounted e := add_le_add_right (tableIds_delete_of_get hc) _

theorem closeConnection_leased (e : Engine H) (fd : Int) :
    (e.closeConnection fd).leased = e.leased ∧ (e.closeConnection fd).nextObj = e.nextObj := by
  unfold closeConnection; split <;> exact ⟨rfl, rfl⟩

namespace LedgerOk

theorem congr (h : LedgerOk e F) (hl : e'.leased = e.leased) (hn : e'.nextObj = e.nextObj)
    (ha : accounted e' ≤ accounted e) : LedgerOk e' F :=
  ⟨hl ▸ hn ▸ h.leased_eq, hn ▸ (add_le_add_right ha F).trans h.accounted_le⟩

theorem lease (h : LedgerOk e F) (k : PoolKind) : LedgerOk (e.lease k).1 ((e.lease k).2 ::ₘ F) := by
  refine ⟨by simp [h.leased_eq, List.range_succ], ?_⟩
  simp only [Engine.lease, Multiset.range_succ, Multiset.add_cons]
  exact Multiset.cons_le_cons _ h.accounted_le

theorem frame (h : LedgerOk e F) (hc : e'.connections = e.connections) (hr : e'.returned = e.returned)
    (hl : e'.leased = e.leased) (hn : e'.nextObj = e.nextObj) : LedgerOk e' F :=
  h.congr hl hn (by simp only [accounted, hc, hr, le_refl])

theorem giveBack {id : Nat} (h : LedgerOk e (id ::ₘ F)) (k : PoolKind) : LedgerOk (e.giveBack k id) F := by
  refine ⟨h.leased_eq, ?_⟩
  rw [accounted_giveBack, Multiset.cons_add]
  simpa only [Multiset.add_cons] using h.accounted_le

theorem drop {id : Nat} (h : LedgerOk e (id ::ₘ F)) : LedgerOk e F :=
  ⟨h.leased_eq, (add_le_add_left (Multiset.le_cons_self F id) _).trans h.accounted_le⟩

theorem setConn (h : LedgerOk e F) (hc : e.connections.get c.fd = some c₀)
    (hmove : heldIds c + F' = heldIds c₀ + F) : LedgerOk (e.setConn c) F' := by
  refine ⟨h.leased_eq, ?_⟩
  have key : accounted (e.setConn c) + F' + heldIds c₀ = accounted e + F + heldIds c₀ := by
    rw [add_right_comm, accounted_setConn hc, add_assoc, hmove, ← add_assoc, add_right_comm]
  exact (add_right_cancel key).le.trans h.accounted_le

theorem closeConnection (h : LedgerOk e F) (fd : Int) : LedgerOk (e.closeConnection fd) F :=
  h.congr (closeConnection_leased e fd).1 (closeConnection_leased e fd).2 (accounted_closeConnection_le e fd)

end LedgerOk

end FastServer.Ledger
