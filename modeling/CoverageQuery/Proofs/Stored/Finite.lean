import CoverageQuery.Stored.Value
import CoverageQuery.Proofs.Document.Object
import CoverageQuery.Proofs.Number.ReadBack

/-!
# Finite values are stored as themselves

A coordinate or an expression that is finite is stored so that it is read as itself, and is never null.
One that is not finite is stored as null, which is neither a coordinate nor an expression. Where a value
may be missing, null is read as a missing value.
-/
namespace CoverageQuery

open Document

/-- Values are stored as themselves if they are finite, and as null otherwise. -/
structure StoresFinite {α : Type} (write : α → Json) (read : Node → Reading α)
    (isFinite : α → Bool) : Prop where
  read_write {a : α} : isFinite a = true → read (write a).toNode = .ok a
  isNull_write {a : α} : isFinite a = true → (write a).toNode.isNull = false
  write_eq_null {a : α} : isFinite a = false → (write a).toNode = .scalar .null none none
  read_null (a : α) : read (.scalar .null none none) ≠ .ok a

namespace StoresFinite

variable {α : Type} {write : α → Json} {read : Node → Reading α} {isFinite : α → Bool}

theorem isFinite_of_read (h : StoresFinite write read isFinite) {a b : α}
    (hread : read (write a).toNode = .ok b) : isFinite a = true := by
  by_contra ha
  rw [h.write_eq_null (by simpa using ha)] at hread
  exact h.read_null b hread

theorem optional_write (h : StoresFinite write read isFinite) (a : α) :
    (write a).toNode.optional read = .ok ((some a).filter isFinite) := by
  cases ha : isFinite a with
  | true =>
    rw [Option.filter_some_pos ha]
    exact Json.optional_toNode (h.read_write ha) (h.isNull_write ha)
  | false =>
    rw [Option.filter_some_neg (by simp [ha]), h.write_eq_null ha]
    rfl

end StoresFinite

theorem Document.Scalar.quantity?_integer (n : Int64) :
    quantity? (.integer n.toInt) = some (.integer n) := by
  simp only [quantity?, Integer.toInt64?_toInt]

namespace Quantity

def isFinite : Quantity → Bool
  | float x => x.isFinite
  | integer _ => true

def toJson : Quantity → Json
  | integer n => .integer n.toInt
  | float x => .float x

theorem exists_scalar {k : Quantity} (h : k.isFinite = true) :
    ∃ v : Scalar, k.toJson.toNode = .scalar v none none ∧ v.quantity? = some k := by
  cases k with
  | integer n => exact ⟨.integer n.toInt, rfl, Scalar.quantity?_integer n⟩
  | float x =>
    have hx : x.isFinite = true := h
    exact ⟨.float x, by rw [toJson, Json.toNode, if_pos hx], rfl⟩

theorem toNode_of_not_finite {k : Quantity} (h : k.isFinite = false) :
    k.toJson.toNode = .scalar .null none none := by
  cases k with
  | integer n => exact absurd h (by simp [isFinite])
  | float x =>
    have hx : x.isFinite = false := h
    simp only [toJson, Json.toNode, hx, Bool.false_eq_true, if_false]

end Quantity

namespace Untagged

variable {α : Type} (u : Untagged α)

theorem ofBuffered_scalar {v : Scalar} {k : Quantity} (h : v.quantity? = some k)
    (written : Option String) (place : Option Place) :
    u.ofBuffered (.scalar v written place) = .ok (u.ofQuantity k) := by
  cases v with
  | integer | float => simp only [ofBuffered, h]
  | _ => exact absurd h (by simp [Scalar.quantity?])

theorem read_scalar {v : Scalar} {k : Quantity} (h : v.quantity? = some k)
    (written : Option String) (place : Option Place) :
    u.read (.scalar v written place) = .ok (u.ofQuantity k) := by
  have hbuffer : (Node.scalar v written place).buffer = .ok (.scalar v none none) := by
    cases v with
    | unfit => exact absurd h (by simp [Scalar.quantity?])
    | _ => rfl
  rw [read, hbuffer]
  exact u.ofBuffered_scalar h none none

theorem ofBuffered_sequence_ne {items : List Node} {stop : Option Failure} {place : Option Place}
    (a : α) : u.ofBuffered (.sequence items stop place) ≠ .ok a := by
  simp [ofBuffered, noAlternative, fail]

theorem ofBuffered_mapping_eq_ok {entries : List (Node × Node)} {stop : Option Failure}
    {place : Option Place} {a : α} : u.ofBuffered (.mapping entries stop place) = .ok a ↔
      u.ofMapping (.mapping entries stop place) = .ok a := by
  rw [ofBuffered]
  cases u.ofMapping (.mapping entries stop place) with
  | ok b => exact Iff.rfl
  | error e => simp [noAlternative, fail]

theorem ofBuffered_null_ne {written : Option String} {place : Option Place} (a : α) :
    u.ofBuffered (.scalar .null written place) ≠ .ok a := by
  simp [ofBuffered, Scalar.quantity?, noAlternative, fail]

theorem ofBuffered_boolean_ne {b : Bool} {written : Option String} {place : Option Place} (a : α) :
    u.ofBuffered (.scalar (.boolean b) written place) ≠ .ok a := by
  simp [ofBuffered, Scalar.quantity?, noAlternative, fail]

theorem storesFinite {write : α → Json} {isFinite : α → Bool}
    (h : ∀ a, (∃ k : Quantity, u.ofQuantity k = a ∧ write a = k.toJson ∧ isFinite a = k.isFinite) ∨
      isFinite a = true ∧ u.read (write a).toNode = .ok a ∧ (write a).toNode.isNull = false) :
    StoresFinite write u.read isFinite where
  read_write {a} ha := by
    rcases h a with ⟨k, rfl, hwrite, hk⟩ | ⟨_, hread, _⟩
    · obtain ⟨v, hnode, hv⟩ := Quantity.exists_scalar (hk.symm.trans ha)
      rw [hwrite, hnode, u.read_scalar hv]
    · exact hread
  isNull_write {a} ha := by
    rcases h a with ⟨k, _, hwrite, hk⟩ | ⟨_, _, hnull⟩
    · obtain ⟨v, hnode, hv⟩ := Quantity.exists_scalar (hk.symm.trans ha)
      rw [hwrite, hnode]
      cases v with
      | null => exact absurd hv (by simp [Scalar.quantity?])
      | _ => rfl
    · exact hnull
  write_eq_null {a} ha := by
    rcases h a with ⟨k, _, hwrite, hk⟩ | ⟨hfinite, _⟩
    · rw [hwrite, Quantity.toNode_of_not_finite (hk.symm.trans ha)]
    · exact absurd (hfinite.symm.trans ha) (by simp)
  read_null a := by
    show u.ofBuffered (.scalar .null none none) ≠ .ok a
    exact u.ofBuffered_null_ne a

end Untagged

theorem Expression.ofBuffered_mapping_ne {entries : List (Node × Node)} {stop : Option Failure}
    {place : Option Place} (e : Expression) :
    untagged.ofBuffered (.mapping entries stop place) ≠ .ok e := by
  rw [ne_eq, Untagged.ofBuffered_mapping_eq_ok]
  simp [untagged, fail]

def Coordinate.isFinite : Coordinate → Bool
  | float x => x.isFinite
  | _ => true

def Expression.isFinite : Expression → Bool
  | float x => x.isFinite
  | _ => true

theorem Coordinate.storesFinite : StoresFinite toJson ofNode isFinite :=
  untagged.storesFinite fun c => by
    cases c with
    | integer n => exact .inl ⟨.integer n, rfl, rfl, rfl⟩
    | float x => exact .inl ⟨.float x, rfl, rfl, rfl⟩
    | raw | text => exact .inr ⟨rfl, rfl, rfl⟩

theorem Expression.storesFinite : StoresFinite toJson ofNode isFinite :=
  untagged.storesFinite fun e => by
    cases e with
    | integer n => exact .inl ⟨.integer n, rfl, rfl, rfl⟩
    | float x => exact .inl ⟨.float x, rfl, rfl, rfl⟩
    | raw => exact .inr ⟨rfl, rfl, rfl⟩

end CoverageQuery
