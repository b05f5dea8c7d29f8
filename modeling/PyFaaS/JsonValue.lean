import Mathlib.Data.Int.Notation
import PyFaaS.TextLines

/-!
# JSON values and the two functions of the json module

Python's `None` at the top level is `none` of an `Option Json`; `null` is what
it becomes inside an encoded object. A float is known by its bit pattern only,
since nothing here computes with it. `json.dumps` and `json.loads` are
parameters: `Carries` is what is relied on for one value.
-/

namespace PyFaaS
open TextLines

inductive Json where
  | null
  | bool (b : Bool)
  | int (n : ℤ)
  | float (bits : ℕ)
  | str (s : Text)
  | arr (items : List Json)
  | obj (fields : List (Text × Json))
  deriving Repr

namespace Json

mutual
def decEq : (a b : Json) → Decidable (a = b)
  | .null, .null => isTrue rfl
  | .bool a, .bool b => decidable_of_iff (a = b) (by simp)
  | .int a, .int b => decidable_of_iff (a = b) (by simp)
  | .float a, .float b => decidable_of_iff (a = b) (by simp)
  | .str a, .str b => decidable_of_iff (a = b) (by simp)
  | .arr a, .arr b =>
    have := decEqItems a b
    decidable_of_iff (a = b) (by simp)
  | .obj a, .obj b =>
    have := decEqFields a b
    decidable_of_iff (a = b) (by simp)
  | .null, .bool _ | .null, .int _ | .null, .float _ | .null, .str _ | .null, .arr _
  | .null, .obj _ | .bool _, .null | .bool _, .int _ | .bool _, .float _ | .bool _, .str _
  | .bool _, .arr _ | .bool _, .obj _ | .int _, .null | .int _, .bool _ | .int _, .float _
  | .int _, .str _ | .int _, .arr _ | .int _, .obj _ | .float _, .null | .float _, .bool _
  | .float _, .int _ | .float _, .str _ | .float _, .arr _ | .float _, .obj _ | .str _, .null
  | .str _, .bool _ | .str _, .int _ | .str _, .float _ | .str _, .arr _ | .str _, .obj _
  | .arr _, .null | .arr _, .bool _ | .arr _, .int _ | .arr _, .float _ | .arr _, .str _
  | .arr _, .obj _ | .obj _, .null | .obj _, .bool _ | .obj _, .int _ | .obj _, .float _
  | .obj _, .str _ | .obj _, .arr _ => isFalse (by simp)

def decEqItems : (a b : List Json) → Decidable (a = b)
  | [], [] => isTrue rfl
  | x :: xs, y :: ys =>
    have := decEq x y
    have := decEqItems xs ys
    decidable_of_iff (x = y ∧ xs = ys) (by simp)
  | [], _ :: _ | _ :: _, [] => isFalse (by simp)

def decEqFields : (a b : List (Text × Json)) → Decidable (a = b)
  | [], [] => isTrue rfl
  | (k, x) :: xs, (l, y) :: ys =>
    have := decEq x y
    have := decEqFields xs ys
    decidable_of_iff ((k = l ∧ x = y) ∧ xs = ys) (by simp)
  | [], _ :: _ | _ :: _, [] => isFalse (by simp)
end

instance : DecidableEq Json := decEq

def isDict : Json → Bool
  | .obj _ => true
  | _ => false

def get? (key : Text) : Json → Option Json
  | .obj fields => fields.lookup key
  | _ => none

/-- Python truth value. The two zero floats differ in the sign bit only. -/
def truthy : Json → Bool
  | .null => false
  | .bool b => b
  | .int n => !(n == 0)
  | .float bits => !(bits % Nat.pow 2 63 == 0)
  | .str s => !s.isEmpty
  | .arr items => !items.isEmpty
  | .obj fields => !fields.isEmpty

def toPython : Json → Option Json
  | .null => none
  | j => some j

end Json

/-- `json.loads` raises `JSONDecodeError`, or now and then another exception
(a nesting too deep, an integer with too many digits). -/
inductive LoadsError where
  | decodeError
  | raised (message : Text)
  deriving DecidableEq, Repr

structure JsonCodec where
  dumps : Json → Text
  loads : Text → Except LoadsError Json

namespace JsonCodec

def ofTable (table : List (Json × Text)) : JsonCodec where
  dumps j := ((table.find? fun entry => entry.1 = j).map Prod.snd).getD "null".toList
  loads x :=
    match table.find? fun entry => entry.2 = x with
    | some entry => .ok entry.1
    | none => .error .decodeError

theorem ofTable_dumps_head (j : Json) (x : Text) (table : List (Json × Text)) :
    (ofTable ((j, x) :: table)).dumps j = x := by
  simp [ofTable]

theorem ofTable_loads_head (j : Json) (x : Text) (table : List (Json × Text)) :
    (ofTable ((j, x) :: table)).loads x = .ok j := by
  simp [ofTable]

def PrintableAscii (x : Text) : Prop := ∀ c ∈ x, 32 ≤ c.toNat ∧ c.toNat ≤ 126

instance (x : Text) : Decidable (PrintableAscii x) :=
  decidable_of_iff (x.all fun c => decide (32 ≤ c.toNat) && decide (c.toNat ≤ 126))
    (by simp [PrintableAscii])

/-- The encoding of `r` is one line of printable ASCII and decodes to `r`. -/
structure Carries (codec : JsonCodec) (r : Json) : Prop where
  printable : PrintableAscii (codec.dumps r)
  inverse : codec.loads (codec.dumps r) = .ok r

theorem oneLine_of_printable {x : Text} (hx : PrintableAscii x) : OneLine x := by
  intro c hc
  have hrange := hx c hc
  have hne : ∀ d : Char, (d.toNat < 32 ∨ 126 < d.toNat) → c ≠ d := by
    rintro d hd rfl
    omega
  simp only [isLineBreak, Bool.or_eq_false_iff, decide_eq_false_iff_not]
  refine ⟨⟨⟨⟨⟨⟨⟨⟨⟨?_, ?_⟩, ?_⟩, ?_⟩, ?_⟩, ?_⟩, ?_⟩, ?_⟩, ?_⟩, ?_⟩ <;>
    exact hne _ (by decide)

end JsonCodec
end PyFaaS
