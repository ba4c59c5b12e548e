import Xair.Data.Json

/-!
# JSON through Lua

What is left of a document that Redis decodes and encodes again with `cjson`. Numbers
become doubles and are written with 14 significant digits, and an empty array is an
empty table, which is written as an object.
-/

namespace Xair

def decimalLength (n : Nat) : Nat := (natText n).length

/-- The rational with so many significant digits nearest to `q`, ties to even. -/
def significant (places : Nat) (q : ℚ) : ℚ :=
  let n := q.num.natAbs
  let d := q.den
  let guess : Int := (decimalLength n : Int) - decimalLength d
  let small : Bool := if 0 ≤ guess then n < d * 10 ^ guess.toNat else n * 10 ^ (-guess).toNat < d
  -- the exponent of the last digit that is kept
  let last : Int := (if small then guess - 1 else guess) - (places - 1 : Nat)
  let units := if 0 ≤ last then roundHalfEven n (d * 10 ^ last.toNat)
    else roundHalfEven (n * 10 ^ (-last).toNat) d
  if q < 0 then -scaleTen units last else scaleTen units last

/-- A double written with `%.14g` and read by Python: without a point and an exponent it is an `int`.
An integer of 14 digits is written as it is. -/
def luaNumber (q : ℚ) : Json :=
  if q.den = 1 ∧ q.num.natAbs < 10 ^ 14 then .int q.num
  else
    let r := significant 14 q
    if r.den = 1 ∧ r.num.natAbs < 10 ^ 14 then .int r.num else .float (roundDouble r)

theorem luaNumber_natCast {n : Nat} (small : n < 10 ^ 14) : luaNumber n = .int n := by
  unfold luaNumber
  rw [if_pos ⟨Rat.den_natCast n, small⟩]
  rfl

mutual

/-- `json.loads(cjson.encode(cjson.decode(json.dumps(v))))`; numbers beyond the doubles are refused. -/
def Json.cjson : Json → Option Json
  | .int n =>
    match roundDouble n with
    | .fin q => some (luaNumber q)
    | _ => none
  | .float (.fin q) => some (luaNumber q)
  | .float _ => none
  | .arr xs => xs.cjson.map fun ys => if ys = .nil then .obj .nil else .arr ys
  | .obj m => m.cjson.map .obj
  | v => some v

def Elems.cjson : Elems → Option Elems
  | .nil => some .nil
  | .cons head tail => head.cjson.bind fun h => tail.cjson.map fun t => .cons h t

def Members.cjson : Members → Option Members
  | .nil => some .nil
  | .cons key value rest => value.cjson.bind fun v => rest.cjson.map fun r => .cons key v r

end

mutual

/-- No empty array, and no number that changes. -/
def Json.survives : Json → Bool
  | .arr xs => decide (xs ≠ .nil) && xs.survives
  | .obj m => m.survives
  | v => v.cjson.any v.pyEq

def Elems.survives : Elems → Bool
  | .nil => true
  | .cons head tail => head.survives && tail.survives

def Members.survives : Members → Bool
  | .nil => true
  | .cons _ value rest => value.survives && rest.survives

end

namespace Members

theorem cjson_cons {key : Str} {value : Json} {rest m : Members} (h : (cons key value rest).cjson = some m) :
    ∃ v r, value.cjson = some v ∧ rest.cjson = some r ∧ m = cons key v r := by
  rw [cjson, Option.bind_eq_some_iff] at h
  obtain ⟨v, first, h⟩ := h
  obtain ⟨r, later, rfl⟩ := Option.map_eq_some_iff.mp h
  exact ⟨v, r, first, later, rfl⟩

theorem length_cjson {m n : Members} (h : m.cjson = some n) : n.length = m.length := by
  induction m generalizing n with
  | nil =>
    cases h
    rfl
  | cons key value rest ih =>
    obtain ⟨v, r, _, later, rfl⟩ := cjson_cons h
    rw [length, length, ih later]

theorem keys_cjson {m n : Members} (h : m.cjson = some n) : n.keys = m.keys := by
  induction m generalizing n with
  | nil =>
    cases h
    rfl
  | cons key value rest ih =>
    obtain ⟨v, r, _, later, rfl⟩ := cjson_cons h
    rw [keys, keys, ih later]

theorem get_cjson {m n : Members} (h : m.cjson = some n) {key : Str} {v : Json} (present : m.get key = some v) :
    ∃ w, v.cjson = some w ∧ n.get key = some w := by
  induction m generalizing n with
  | nil => cases present
  | cons k value rest ih =>
    obtain ⟨v', r, first, later, rfl⟩ := cjson_cons h
    rw [get] at present
    split at present
    · rename_i same
      cases present
      exact ⟨v', first, by rw [get, if_pos same]⟩
    · rename_i other
      obtain ⟨w, decoded, stored⟩ := ih later present
      exact ⟨w, decoded, by rw [get, if_neg other]; exact stored⟩

end Members

theorem Json.pyEq_cjson_leaf {v w : Json} (h : v.cjson = some w) (leaf : v.survives = v.cjson.any v.pyEq) :
    v.pyEq w = v.survives := by
  rw [leaf, h]
  rfl

mutual

/-- A value comes back equal exactly if all its numbers do and none of its arrays is empty. -/
theorem Json.pyEq_cjson : ∀ {v w : Json}, v.WF → v.cjson = some w → v.pyEq w = v.survives
  | .null, _, _, h | .bool _, _, _, h | .int _, _, _, h | .float _, _, _, h | .str _, _, _, h =>
    Json.pyEq_cjson_leaf h rfl
  | .arr .nil, w, _, h => by
    cases h
    rfl
  | .arr (.cons head tail), w, wf, h => by
    obtain ⟨ys, decoded, rfl⟩ := Option.map_eq_some_iff.mp h
    have items := Elems.pyEq_cjson wf decoded
    rw [Elems.cjson, Option.bind_eq_some_iff] at decoded
    obtain ⟨h', _, decoded⟩ := decoded
    obtain ⟨t', _, rfl⟩ := Option.map_eq_some_iff.mp decoded
    rw [if_neg (by simp), Json.pyEq, items, Json.survives]
    simp
  | .obj m, w, wf, h => by
    obtain ⟨n, decoded, rfl⟩ := Option.map_eq_some_iff.mp h
    rw [Json.pyEq, Json.survives, Members.length_cjson decoded, decide_eq_true rfl, Bool.true_and]
    exact Members.pySub_cjson wf decoded fun _ _ stored => stored

theorem Elems.pyEq_cjson : ∀ {xs ys : Elems}, xs.WF → xs.cjson = some ys → xs.pyEq ys = xs.survives
  | .nil, _, _, h => by
    cases h
    rfl
  | .cons head tail, ys, wf, h => by
    rw [Elems.cjson, Option.bind_eq_some_iff] at h
    obtain ⟨h', first, h⟩ := h
    obtain ⟨t', later, rfl⟩ := Option.map_eq_some_iff.mp h
    rw [Elems.pyEq, Elems.survives, Json.pyEq_cjson wf.1 first, Elems.pyEq_cjson wf.2 later]

theorem Members.pySub_cjson : ∀ {m n whole : Members}, m.WF → m.cjson = some n →
    (∀ k w, n.get k = some w → whole.get k = some w) → m.pySub whole = m.survives
  | .nil, _, _, _, _, _ => rfl
  | .cons key value rest, n, whole, wf, h, within => by
    obtain ⟨v, r, first, later, rfl⟩ := Members.cjson_cons h
    have here : whole.get key = some v := within key v (by rw [Members.get, if_pos rfl])
    have others : ∀ k w, r.get k = some w → whole.get k = some w := by
      intro k w stored
      have ne : key ≠ k := by
        intro same
        subst same
        have absent : r.get key = none := Members.get_eq_none.mpr (by rw [Members.keys_cjson later]; exact wf.1)
        rw [absent] at stored
        cases stored
      exact within k w (by rw [Members.get, if_neg ne]; exact stored)
    rw [Members.pySub, here, Members.survives, Members.pySub_cjson wf.2.2 later others]
    simp only
    rw [Json.pyEq_cjson wf.2.1 first]

end

mutual

/-- A value that can be written has no NaN in it. -/
theorem Json.noNaN_of_cjson : ∀ {v w : Json}, v.cjson = some w → v.NoNaN
  | .null, _, _ | .bool _, _, _ | .int _, _, _ | .str _, _, _ => trivial
  | .float (.fin _), _, _ => nofun
  | .float (.inf _), _, h | .float .nan, _, h => nomatch h
  | .arr xs, _, h => by
    obtain ⟨ys, decoded, _⟩ := Option.map_eq_some_iff.mp h
    exact Elems.noNaN_of_cjson decoded
  | .obj m, _, h => by
    obtain ⟨n, decoded, _⟩ := Option.map_eq_some_iff.mp h
    exact Members.noNaN_of_cjson decoded

theorem Elems.noNaN_of_cjson : ∀ {xs ys : Elems}, xs.cjson = some ys → xs.NoNaN
  | .nil, _, _ => trivial
  | .cons head tail, ys, h => by
    rw [Elems.cjson, Option.bind_eq_some_iff] at h
    obtain ⟨h', first, h⟩ := h
    obtain ⟨t', later, _⟩ := Option.map_eq_some_iff.mp h
    exact ⟨Json.noNaN_of_cjson first, Elems.noNaN_of_cjson later⟩

theorem Members.noNaN_of_cjson : ∀ {m n : Members}, m.cjson = some n → m.NoNaN
  | .nil, _, _ => trivial
  | .cons key value rest, n, h => by
    obtain ⟨v, r, first, later, rfl⟩ := Members.cjson_cons h
    exact ⟨Json.noNaN_of_cjson first, Members.noNaN_of_cjson later⟩

end

example : (Json.float (.fin (3454000000247 / 2))).cjson = some (.float (.fin (3454000000247 / 2))) := by decide +kernel

example : (Json.int 123456789012345).cjson = some (.float (.fin 123456789012340)) := by decide +kernel

end Xair
