/-!
# Identities

Nodes, ports, links and interface entries are told apart by identities. New ones come from a supply
that never repeats itself and avoids those it has been told to reserve.
-/

namespace NodeScript

/-- An identity, written as a number of 128 bits. -/
structure Identity where
  code : Nat
deriving DecidableEq, Repr

namespace Identity

/-- The last `n` hexadecimal digits of a number. -/
def hexDigits : Nat → Nat → List Char
  | 0, _ => []
  | n + 1, value => hexDigits n (value / 16) ++ [Nat.digitChar (value % 16)]

/-- Lower-case hexadecimal digits in groups of 8, 4, 4, 4 and 12. -/
def text (identity : Identity) : String :=
  let digits := hexDigits 32 identity.code
  let group (start size : Nat) := (digits.drop start).take size
  String.ofList (group 0 8 ++ '-' :: group 8 4 ++ '-' :: group 12 4 ++ '-' :: group 16 4 ++
    '-' :: group 20 12)

end Identity

abbrev NodeId := Identity

abbrev PortId := Identity

abbrev LinkId := Identity

abbrev EntryId := Identity

/-- The first code that is ever drawn. Codes that are written by hand are mostly small; this one is
far from them. -/
def firstCode : Nat := 0x9b1c7e52d03a4f868a6f3d15e4720000

/-- Source of new identities: codes from `next` on that are not reserved. -/
structure Supply where
  next : Nat := firstCode
  reserved : List Identity := []
deriving Inhabited

namespace Supply

/-- The least code from `start` on outside a list. -/
def firstFree (start : Nat) (taken : List Identity) : Nat :=
  if Identity.mk start ∈ taken then
    firstFree (start + 1) (taken.erase (Identity.mk start))
  else start
termination_by taken.length
decreasing_by
  rename_i h
  have hpos := List.length_pos_of_mem h
  rw [List.length_erase_of_mem h]
  omega

/-- Draw an identity that has not been drawn before and is not reserved. -/
def fresh : StateM Supply Identity := fun supply =>
  let code := firstFree supply.next supply.reserved
  (⟨code⟩, { supply with next := code + 1 })

/-- Never draw the given identities. -/
def reserve (supply : Supply) (identities : List Identity) : Supply :=
  { supply with
    reserved := identities.filter (fun i => supply.next ≤ i.code) ++ supply.reserved }

/-- An identity that is spoken for: drawn already, or reserved. -/
def Used (supply : Supply) (identity : Identity) : Prop :=
  identity.code < supply.next ∨ identity ∈ supply.reserved

theorem le_firstFree (start : Nat) (taken : List Identity) : start ≤ firstFree start taken := by
  fun_induction firstFree start taken with
  | case1 start taken h ih => omega
  | case2 => exact Nat.le_refl _

theorem firstFree_not_mem (start : Nat) (taken : List Identity) :
    Identity.mk (firstFree start taken) ∉ taken := by
  fun_induction firstFree start taken with
  | case1 start taken h ih =>
    intro hmem
    have hle := le_firstFree (start + 1) (taken.erase (Identity.mk start))
    refine ih ((List.mem_erase_of_ne ?_).mpr hmem)
    simp only [ne_eq, Identity.mk.injEq]
    omega
  | case2 start taken h => exact h

/-- A drawn identity was not spoken for before. -/
theorem fresh_not_used (supply : Supply) : ¬ supply.Used (fresh supply).1 := by
  rintro (h | h)
  · exact absurd h (Nat.not_lt.mpr (le_firstFree _ _))
  · exact firstFree_not_mem _ _ h

/-- A drawn identity is spoken for afterwards, and so is all that was before. -/
theorem used_fresh (supply : Supply) (identity : Identity) :
    identity = (fresh supply).1 ∨ supply.Used identity → (fresh supply).2.Used identity := by
  rintro (rfl | h | h)
  · exact Or.inl (Nat.lt_succ_self _)
  · exact Or.inl (Nat.lt_of_lt_of_le h (Nat.le_trans (le_firstFree _ _) (Nat.le_succ _)))
  · exact Or.inr h

end Supply

end NodeScript
