import Mathlib.Algebra.Order.Field.Rat
import Mathlib.Data.Rat.Floor
import Mathlib.Data.Int.Log
import Mathlib.Data.List.Nodup
import Rustango.Lib.Numeral
import Rustango.Lib.PrefixCode
import Rustango.Lib.TreePaths

/-!
# JSON equality on SQLite

`write_json_eq` compares two JSON values by the rows of `json_tree`, one for each node: where it stands,
its type, and the value of a leaf. SQLite reads an integer outside of 64 bits, and every other number, as
a double.
-/

namespace Rustango.Sqlite

open Rustango.TreePaths

/-- A number as it is written, without or with a fraction or an exponent. -/
inductive Number where
  | integer (n : ℤ)
  | real (q : ℚ)
deriving DecidableEq

def Number.value : Number → ℚ
  | .integer n => n
  | .real q => q

inductive Json where
  | null
  | bool (b : Bool)
  | number (n : Number)
  | string (s : String)
  | array (items : List Json)
  | object (members : List (String × Json))

/-- No object has a key twice. -/
inductive Json.WellFormed : Json → Prop where
  | null : WellFormed .null
  | bool (b : Bool) : WellFormed (.bool b)
  | number (n : Number) : WellFormed (.number n)
  | string (s : String) : WellFormed (.string s)
  | array {items : List Json} (h : ∀ v ∈ items, WellFormed v) : WellFormed (.array items)
  | object {members : List (String × Json)} (once : (members.map Prod.fst).Nodup)
      (h : ∀ m ∈ members, WellFormed m.2) : WellFormed (.object members)

/-- Values that are the same but for the order of keys and for what `same` says of numbers. -/
inductive Json.Alike (same : Number → Number → Prop) : Json → Json → Prop where
  | null : Alike same .null .null
  | bool (b : Bool) : Alike same (.bool b) (.bool b)
  | number {m n : Number} (h : same m n) : Alike same (.number m) (.number n)
  | string (s : String) : Alike same (.string s) (.string s)
  | array {items items' : List Json} (length : items.length = items'.length)
      (h : ∀ (i : Nat) v v', items[i]? = some v → items'[i]? = some v' → Alike same v v') :
      Alike same (.array items) (.array items')
  | object {members members' : List (String × Json)}
      (keys : ∀ k, k ∈ members.map Prod.fst ↔ k ∈ members'.map Prod.fst)
      (h : ∀ k v v', (k, v) ∈ members → (k, v') ∈ members' → Alike same v v') :
      Alike same (.object members) (.object members')

/-- Equality of JSON: 1 is 1.0. -/
def Json.Equal : Json → Json → Prop := Alike fun m n => m.value = n.value

inductive Step where
  | index (i : Nat)
  | key (k : String)
deriving DecidableEq

inductive Label where
  | null
  | bool (b : Bool)
  | number (n : Number)
  | string (s : String)
  | array
  | object
deriving DecidableEq

def Json.label : Json → Label
  | .null => .null
  | .bool b => .bool b
  | .number n => .number n
  | .string s => .string s
  | .array _ => .array
  | .object _ => .object

mutual

/-- The nodes of a value that stands at `p`. -/
def nodes (p : List Step) : Json → List (List Step × Label)
  | .null => [(p, .null)]
  | .bool b => [(p, .bool b)]
  | .number n => [(p, .number n)]
  | .string s => [(p, .string s)]
  | .array items => (p, .array) :: itemNodes p 0 items
  | .object members => (p, .object) :: memberNodes p members

def itemNodes (p : List Step) (i : Nat) : List Json → List (List Step × Label)
  | [] => []
  | v :: vs => nodes (p ++ [.index i]) v ++ itemNodes p (i + 1) vs

def memberNodes (p : List Step) : List (String × Json) → List (List Step × Label)
  | [] => []
  | (k, v) :: ms => nodes (p ++ [.key k]) v ++ memberNodes p ms

end

/-- A number of the database; INTEGER and REAL compare by value. -/
inductive Numeric where
  | finite (q : ℚ)
  | infinite (negative : Bool)
deriving DecidableEq

inductive Atom where
  | null
  | number (x : Numeric)
  | text (s : String)
deriving DecidableEq

structure Row where
  fullkey : String
  type : String
  atom : Atom
deriving DecidableEq

section Condition
variable (toReal : ℚ → Numeric) (fullkey : List Step → String)

/-- How SQLite reads a number; `toReal` is its double. -/
def Number.read : Number → Numeric
  | .integer n => if -2 ^ 63 ≤ n ∧ n < 2 ^ 63 then .finite n else toReal n
  | .real q => toReal q

/-- The column `type` of `json_tree`. -/
def Label.type : Label → String
  | .null => "null"
  | .bool true => "true"
  | .bool false => "false"
  | .number (.integer _) => "integer"
  | .number (.real _) => "real"
  | .string _ => "text"
  | .array => "array"
  | .object => "object"

/-- The column `atom`. -/
def Label.atom : Label → Atom
  | .null | .array | .object => .null
  | .bool b => .number (.finite (if b then 1 else 0))
  | .number n => .number (n.read toReal)
  | .string s => .text s

/-- `CASE WHEN type IN ('integer', 'real') THEN 'number' ELSE type END`. -/
def Label.ofNumbers (a : Label) : String :=
  if a.type ∈ ["integer", "real"] then "number" else a.type

/-- `SELECT fullkey, CASE .. END, atom`. -/
def row (node : List Step × Label) : Row where
  fullkey := fullkey node.1
  type := node.2.ofNumbers
  atom := node.2.atom toReal

inductive Side where
  | left
  | right

inductive Rows where
  | jsonTree (of : Side)
  | except (rows rows' : Rows)

inductive Condition where
  | notExists (rows : Rows)
  | and (c c' : Condition)
  | not (c : Condition)
  /-- `CASE WHEN x IS NULL THEN NULL ELSE c END`. -/
  | unlessNull (x : Side) (c : Condition)

def Rows.eval (env : Side → Option Json) : Rows → List Row
  | .jsonTree of => ((env of).map fun v => (nodes [] v).map (row toReal fullkey)).getD []
  | .except rows rows' => (rows.eval env).filter fun x => x ∉ rows'.eval env

/-- The value of a condition, none for NULL. -/
def Condition.eval (env : Side → Option Json) : Condition → Option Bool
  | .notExists rows => some (rows.eval toReal fullkey env).isEmpty
  | .and c c' =>
    match c.eval env, c'.eval env with
    | some false, _ => some false
    | _, some false => some false
    | some true, some true => some true
    | _, _ => none
  | .not c => (c.eval env).map Bool.not
  | .unlessNull x c => if (env x).isNone then none else c.eval env

-- Its equations are derived here, once for all the proofs that unfold it.
attribute [local simp] Condition.eval

end Condition

def writeJsonEq (ne : Bool) : Condition :=
  let l := Rows.jsonTree .left
  let r := Rows.jsonTree .right
  let eq := Condition.unlessNull .left
    (.and (.notExists (.except l r)) (.notExists (.except r l)))
  if ne then .not eq else eq

/-- A member of an object or an item of an array. -/
inductive Json.Child : Json → Step → Json → Prop where
  | item {items : List Json} {i : Nat} {v : Json} (h : items[i]? = some v) :
      Child (.array items) (.index i) v
  | member {members : List (String × Json)} {k : String} {v : Json} (h : (k, v) ∈ members) :
      Child (.object members) (.key k) v

@[elab_as_elim]
theorem Json.induct {motive : Json → Prop} (null : motive .null) (bool : ∀ b, motive (.bool b))
    (number : ∀ n, motive (.number n)) (string : ∀ s, motive (.string s))
    (array : ∀ items, (∀ v ∈ items, motive v) → motive (.array items))
    (object : ∀ members : List (String × Json), (∀ m ∈ members, motive m.2) →
      motive (.object members)) (v : Json) : motive v :=
  match v with
  | .null => null
  | .bool b => bool b
  | .number n => number n
  | .string s => string s
  | .array items => array items fun v _ => induct null bool number string array object v
  | .object members => object members fun m hm =>
      have : sizeOf m.2 < sizeOf members :=
        Nat.lt_trans (by cases m; simp) (List.sizeOf_lt_of_mem hm)
      induct null bool number string array object m.2

private theorem mem_itemNodes {p : List Step} {items : List Json} {i : Nat} {x : List Step × Label} :
    x ∈ itemNodes p i items ↔
      ∃ j v, items[j]? = some v ∧ x ∈ nodes (p ++ [.index (i + j)]) v := by
  induction items generalizing i with
  | nil => simp [itemNodes]
  | cons w ws ih =>
    rw [itemNodes, List.mem_append, ih]
    constructor
    · intro h
      rcases h with hfirst | ⟨j, v, hv, hx⟩
      · exact ⟨0, w, rfl, hfirst⟩
      · exact ⟨j + 1, v, hv, by rwa [show i + (j + 1) = i + 1 + j by omega]⟩
    · intro ⟨j, v, hv, hx⟩
      cases j with
      | zero =>
        left
        simp only [List.getElem?_cons_zero, Option.some.injEq] at hv
        rwa [hv]
      | succ j =>
        right
        exact ⟨j, v, hv, by rwa [show i + 1 + j = i + (j + 1) by omega]⟩

private theorem mem_memberNodes {p : List Step} {members : List (String × Json)} {x : List Step × Label} :
    x ∈ memberNodes p members ↔ ∃ k v, (k, v) ∈ members ∧ x ∈ nodes (p ++ [.key k]) v := by
  induction members with
  | nil => simp [memberNodes]
  | cons m ms ih =>
    rw [memberNodes, List.mem_append, ih]
    constructor
    · intro h
      rcases h with hfirst | ⟨k, v, hv, hx⟩
      · exact ⟨m.1, m.2, List.mem_cons_self, hfirst⟩
      · exact ⟨k, v, List.mem_cons_of_mem _ hv, hx⟩
    · intro ⟨k, v, hv, hx⟩
      rcases List.mem_cons.mp hv with heq | hmem
      · left
        rwa [← heq]
      · exact .inr ⟨k, v, hmem, hx⟩

private theorem mem_nodes_step (p : List Step) (v : Json) (x : List Step × Label) :
    x ∈ nodes p v ↔ x = (p, v.label) ∨ ∃ s c, v.Child s c ∧ x ∈ nodes (p ++ [s]) c := by
  cases v with
  | null | bool b | number n | string s =>
    simp only [nodes, List.mem_singleton, Json.label]
    constructor
    · exact .inl
    · intro h
      rcases h with hroot | ⟨s, c, hc, _⟩
      · exact hroot
      · cases hc
  | array items =>
    rw [nodes, List.mem_cons, mem_itemNodes]
    simp only [Nat.zero_add]
    constructor
    · intro h
      rcases h with hroot | ⟨j, c, hc, hx⟩
      · exact .inl hroot
      · exact .inr ⟨_, c, .item hc, hx⟩
    · intro h
      rcases h with hroot | ⟨s, c, hc, hx⟩
      · exact .inl hroot
      · cases hc with
        | item hc => exact .inr ⟨_, c, hc, hx⟩
  | object members =>
    rw [nodes, List.mem_cons, mem_memberNodes]
    constructor
    · intro h
      rcases h with hroot | ⟨k, c, hc, hx⟩
      · exact .inl hroot
      · exact .inr ⟨_, c, .member hc, hx⟩
    · intro h
      rcases h with hroot | ⟨s, c, hc, hx⟩
      · exact .inl hroot
      · cases hc with
        | member hc => exact .inr ⟨_, c, hc, hx⟩

/-- The nodes of a value are its labels by path. -/
private theorem mem_nodes (p : List Step) (v : Json) (x : List Step × Label) :
    x ∈ nodes p v ↔ ∃ q, x.1 = p ++ q ∧ At Json.label Json.Child v q x.2 := by
  have hchild : ∀ v : Json, (∀ s c, v.Child s c → ∀ p, x ∈ nodes p c ↔
      ∃ q, x.1 = p ++ q ∧ At Json.label Json.Child c q x.2) →
      ∀ p, x ∈ nodes p v ↔ ∃ q, x.1 = p ++ q ∧ At Json.label Json.Child v q x.2 := by
    intro v ih p
    rw [mem_nodes_step]
    constructor
    · intro h
      rcases h with hroot | ⟨s, c, hc, hx⟩
      · rw [hroot]
        exact ⟨[], by simp, .here v⟩
      · obtain ⟨q, hq, hat⟩ := (ih s c hc _).mp hx
        exact ⟨s :: q, by simpa using hq, .child hc hat⟩
    · intro ⟨q, hq, hat⟩
      cases q with
      | nil =>
        left
        rw [List.append_nil] at hq
        have hlabel : x.2 = v.label := At.nil_iff.mp hat
        exact Prod.ext hq hlabel
      | cons s q =>
        right
        obtain ⟨c, hc, hat'⟩ := At.cons_iff.mp hat
        exact ⟨s, c, hc, (ih s c hc _).mpr ⟨q, by simpa using hq, hat'⟩⟩
  induction v using Json.induct generalizing p with
  | null => exact hchild _ (by intro s c hc; cases hc) p
  | bool b => exact hchild _ (by intro s c hc; cases hc) p
  | number n => exact hchild _ (by intro s c hc; cases hc) p
  | string s => exact hchild _ (by intro s c hc; cases hc) p
  | array items ih =>
    apply hchild
    intro s c hc p
    cases hc with
    | item hc => exact ih c (List.mem_of_getElem? hc) p
  | object members ih =>
    apply hchild
    intro s c hc p
    cases hc with
    | member hc => exact ih _ hc p

private theorem distinct_leaf {v : Json} (h : ∀ s c, ¬ v.Child s c) : Distinct Json.Child v :=
  .intro (fun s c _ hc => absurd hc (h s c)) fun s c hc => absurd hc (h s c)

theorem Json.WellFormed.distinct {v : Json} (h : v.WellFormed) : Distinct Json.Child v := by
  induction h with
  | null | bool b | number n | string s =>
    apply distinct_leaf
    intro s c hc
    cases hc
  | array h ih =>
    constructor
    · intro s c c' hc hc'
      cases hc with
      | item hc =>
        cases hc' with
        | item hc' => exact Option.some.inj (hc.symm.trans hc')
    · intro s c hc
      cases hc with
      | item hc => exact ih c (List.mem_of_getElem? hc)
  | object once h ih =>
    constructor
    · intro s c c' hc hc'
      cases hc with
      | member hc =>
        cases hc' with
        | member hc' =>
          have hsame := List.inj_on_of_nodup_map once hc hc' rfl
          exact congrArg Prod.snd hsame
    · intro s c hc
      cases hc with
      | member hc => exact ih _ hc

/-- Labels of one node in two values that are alike. -/
def Label.Alike (same : Number → Number → Prop) : Label → Label → Prop
  | .number m, .number n => same m n
  | a, b => a = b

private theorem mem_keys {members : List (String × Json)} {k : String} :
    k ∈ members.map Prod.fst ↔ ∃ v, (k, v) ∈ members := by
  simp

/-- Values are alike by their roots and their children. -/
private theorem alike_iff {same : Number → Number → Prop} {v w : Json} :
    v.Alike same w ↔ v.label.Alike same w.label ∧
      (∀ s, (∃ c, v.Child s c) ↔ ∃ c, w.Child s c) ∧
      ∀ s c c', v.Child s c → w.Child s c' → c.Alike same c' := by
  constructor
  · intro h
    cases h with
    | null | bool b | string s =>
      refine ⟨rfl, fun s => Iff.rfl, ?_⟩
      intro s c c' hc
      cases hc
    | number hsame =>
      refine ⟨hsame, ?_, ?_⟩
      · intro s
        constructor <;> (intro h; cases h with | intro c hc => cases hc)
      · intro s c c' hc
        cases hc
    | @array items items' hlength hitems =>
      refine ⟨rfl, ?_, ?_⟩
      · intro s
        constructor
        · intro ⟨c, hc⟩
          cases hc with
          | item hc =>
            have hlt := (List.getElem?_eq_some_iff.mp hc).1
            rw [hlength] at hlt
            exact ⟨_, .item (List.getElem?_eq_getElem hlt)⟩
        · intro ⟨c, hc⟩
          cases hc with
          | item hc =>
            have hlt := (List.getElem?_eq_some_iff.mp hc).1
            rw [← hlength] at hlt
            exact ⟨_, .item (List.getElem?_eq_getElem hlt)⟩
      · intro s c c' hc hc'
        cases hc with
        | item hc =>
          cases hc' with
          | item hc' => exact hitems _ c c' hc hc'
    | @object members members' hkeys hmembers =>
      refine ⟨rfl, ?_, ?_⟩
      · intro s
        constructor
        · intro ⟨c, hc⟩
          cases hc with
          | member hc =>
            obtain ⟨v, hv⟩ := mem_keys.mp ((hkeys _).mp (mem_keys.mpr ⟨c, hc⟩))
            exact ⟨v, .member hv⟩
        · intro ⟨c, hc⟩
          cases hc with
          | member hc =>
            obtain ⟨v, hv⟩ := mem_keys.mp ((hkeys _).mpr (mem_keys.mpr ⟨c, hc⟩))
            exact ⟨v, .member hv⟩
      · intro s c c' hc hc'
        cases hc with
        | member hc =>
          cases hc' with
          | member hc' => exact hmembers _ c c' hc hc'
  · intro ⟨hlabel, hnames, hchildren⟩
    cases v <;> cases w <;> simp only [Json.label, Label.Alike, reduceCtorEq, Label.bool.injEq,
      Label.string.injEq] at hlabel
    case null.null => exact .null
    case bool.bool b c => exact hlabel ▸ .bool b
    case number.number m n => exact .number hlabel
    case string.string s t => exact hlabel ▸ .string s
    case array.array items items' =>
      have hlt : ∀ i, i < items.length ↔ i < items'.length := by
        intro i
        have hi := hnames (.index i)
        constructor
        · intro h
          obtain ⟨c, hc⟩ := hi.mp ⟨_, .item (List.getElem?_eq_getElem h)⟩
          cases hc with
          | item hc => exact (List.getElem?_eq_some_iff.mp hc).1
        · intro h
          obtain ⟨c, hc⟩ := hi.mpr ⟨_, .item (List.getElem?_eq_getElem h)⟩
          cases hc with
          | item hc => exact (List.getElem?_eq_some_iff.mp hc).1
      apply Json.Alike.array
      · have hleft := hlt items.length
        have hright := hlt items'.length
        omega
      · intro i c c' hc hc'
        exact hchildren _ c c' (.item hc) (.item hc')
    case object.object members members' =>
      apply Json.Alike.object
      · intro k
        have hk := hnames (.key k)
        constructor
        · intro h
          obtain ⟨v, hv⟩ := mem_keys.mp h
          obtain ⟨c, hc⟩ := hk.mp ⟨v, .member hv⟩
          cases hc with
          | member hc => exact mem_keys.mpr ⟨c, hc⟩
        · intro h
          obtain ⟨v, hv⟩ := mem_keys.mp h
          obtain ⟨c, hc⟩ := hk.mpr ⟨v, .member hv⟩
          cases hc with
          | member hc => exact mem_keys.mpr ⟨c, hc⟩
      · intro k c c' hc hc'
        exact hchildren _ c c' (.member hc) (.member hc')

theorem Json.WellFormed.child {v c : Json} {s : Step} (h : v.WellFormed) (hc : v.Child s c) :
    c.WellFormed := by
  cases hc with
  | item hc =>
    cases h with
    | array h => exact h c (List.mem_of_getElem? hc)
  | member hc =>
    cases h with
    | object _ h => exact h _ hc

private theorem alike_iff_related {same : Number → Number → Prop} {v w : Json} (hv : v.WellFormed)
    (hw : w.WellFormed) :
    v.Alike same w ↔ Related Json.label Json.Child (Label.Alike same) v w := by
  have hdistinct := hv.distinct
  induction hdistinct generalizing w with
  | @intro v once _ ih =>
    rw [alike_iff, related_iff hv.distinct hw.distinct]
    refine and_congr_right fun _ => and_congr_right fun _ => ?_
    constructor
    · intro h s c c' hc hc'
      exact (ih s c hc (hv.child hc) (hw.child hc')).mp (h s c c' hc hc')
    · intro h s c c' hc hc'
      exact (ih s c hc (hv.child hc) (hw.child hc')).mpr (h s c c' hc hc')

private theorem alike_iff_numbers {same : Number → Number → Prop} {v w : Json} (hv : v.WellFormed)
    (hw : w.WellFormed) :
    v.Alike same w ↔ v.Alike (fun _ _ => True) w ∧
      ∀ q m n, At Json.label Json.Child v q (.number m) → At Json.label Json.Child w q (.number n) →
        same m n := by
  have hsplit : Label.Alike same = fun a b => Label.Alike (fun _ _ => True) a b ∧
      ∀ m n, a = .number m → b = .number n → same m n := by
    funext a b
    apply propext
    cases a <;> cases b <;> simp [Label.Alike]
  rw [alike_iff_related hv hw, alike_iff_related hv hw, hsplit, related_and hw.distinct]
  refine and_congr_right fun _ => ?_
  constructor
  · intro h q m n hm hn
    exact h q _ _ hm hn m n rfl rfl
  · intro h q a b ha hb m n hm hn
    exact h q m n (hm ▸ ha) (hn ▸ hb)

section Equality
variable {toReal : ℚ → Numeric} {fullkey : List Step → String}

@[simp] theorem ofNumbers_null : Label.null.ofNumbers = "null" := by decide
@[simp] theorem ofNumbers_true : (Label.bool true).ofNumbers = "true" := by decide
@[simp] theorem ofNumbers_false : (Label.bool false).ofNumbers = "false" := by decide
@[simp] theorem ofNumbers_string (s : String) : (Label.string s).ofNumbers = "text" := rfl
@[simp] theorem ofNumbers_array : Label.array.ofNumbers = "array" := by decide
@[simp] theorem ofNumbers_object : Label.object.ofNumbers = "object" := by decide

@[simp] theorem ofNumbers_number (n : Number) : (Label.number n).ofNumbers = "number" := by
  cases n <;> rfl

private theorem row_eq_iff (hkey : Function.Injective fullkey) (x y : List Step × Label) :
    row toReal fullkey x = row toReal fullkey y ↔
      x.1 = y.1 ∧ x.2.Alike (fun m n => m.read toReal = n.read toReal) y.2 := by
  rw [row, row, Row.mk.injEq, hkey.eq_iff]
  refine and_congr_right fun _ => ?_
  cases x.2 with
  | bool b =>
    cases y.2 with
    | bool c => cases b <;> cases c <;> simp [Label.atom, Label.Alike]
    | null | number n | string s | array | object => cases b <;> simp [Label.Alike]
  | null | number m | string s | array | object =>
    cases y.2 with
    | bool b => cases b <;> simp [Label.Alike]
    | null | number n | string t | array | object => simp [Label.atom, Label.Alike]

/-- The rows of one side are rows of the other. -/
def Covered (toReal : ℚ → Numeric) (fullkey : List Step → String) (v w : Json) : Prop :=
  ∀ x ∈ (nodes [] v).map (row toReal fullkey), x ∈ (nodes [] w).map (row toReal fullkey)

private theorem covered_iff (hkey : Function.Injective fullkey) {v w : Json} :
    Covered toReal fullkey v w ↔ ∀ q a, At Json.label Json.Child v q a →
      ∃ b, At Json.label Json.Child w q b ∧
        Label.Alike (fun m n => m.read toReal = n.read toReal) a b := by
  constructor
  · intro h q a ha
    have hmem : (q, a) ∈ nodes [] v := (mem_nodes [] v (q, a)).mpr ⟨q, by simp, ha⟩
    obtain ⟨y, hy, hrow⟩ := List.mem_map.mp (h _ (List.mem_map_of_mem hmem))
    obtain ⟨q', hq', hat⟩ := (mem_nodes [] w y).mp hy
    obtain ⟨hpath, hlabel⟩ := (row_eq_iff hkey (q, a) y).mp hrow.symm
    rw [List.nil_append] at hq'
    have hsame : q = q' := hpath.trans hq'
    exact ⟨y.2, hsame ▸ hat, hlabel⟩
  · intro h x hx
    obtain ⟨y, hy, rfl⟩ := List.mem_map.mp hx
    obtain ⟨q, hq, hat⟩ := (mem_nodes [] v y).mp hy
    obtain ⟨b, hb, hlabel⟩ := h q y.2 hat
    have hmem : (q, b) ∈ nodes [] w := (mem_nodes [] w (q, b)).mpr ⟨q, by simp, hb⟩
    rw [List.nil_append] at hq
    rw [(row_eq_iff hkey y (q, b)).mpr ⟨hq, hlabel⟩]
    exact List.mem_map_of_mem hmem

private theorem covered_both_iff (hkey : Function.Injective fullkey) {v w : Json} (hv : v.WellFormed)
    (hw : w.WellFormed) :
    Covered toReal fullkey v w ∧ Covered toReal fullkey w v ↔
      v.Alike (fun m n => m.read toReal = n.read toReal) w := by
  have hsymm : ∀ a b : Label, b.Alike (fun m n => m.read toReal = n.read toReal) a ↔
      a.Alike (fun m n => m.read toReal = n.read toReal) b := by
    intro a b
    cases a <;> cases b <;> simp [Label.Alike, eq_comm]
  rw [alike_iff_related hv hw, covered_iff hkey, covered_iff hkey, Related]
  simp only [hsymm]

/-- The sides `rq_json_l`, which may be NULL, and `rq_json_r`. -/
def sides (lhs : Option Json) (rhs : Json) : Side → Option Json
  | .left => lhs
  | .right => some rhs

@[simp] theorem eval_null (rhs : Json) (ne : Bool) :
    (writeJsonEq ne).eval toReal fullkey (sides none rhs) = none := by
  cases ne <;> simp [writeJsonEq, Condition.eval, sides]

private theorem notExists_eval (toReal : ℚ → Numeric) (fullkey : List Step → String)
    (env : Side → Option Json) {x y : Side} {v w : Json} (hx : env x = some v)
    (hy : env y = some w) :
    ∃ holds : Bool, (Condition.notExists (.except (.jsonTree x) (.jsonTree y))).eval toReal fullkey env =
      some holds ∧ (holds = true ↔ Covered toReal fullkey v w) := by
  have hrows : (Rows.except (.jsonTree x) (.jsonTree y)).eval toReal fullkey env =
      ((nodes [] v).map (row toReal fullkey)).filter fun z =>
        z ∉ (nodes [] w).map (row toReal fullkey) := by
    simp only [Rows.eval, hx, hy, Option.map_some, Option.getD_some]
  refine ⟨_, rfl, ?_⟩
  rw [List.isEmpty_iff, hrows, List.filter_eq_nil_iff]
  simp only [decide_eq_true_eq, not_not, Covered]

private theorem eval_some (toReal : ℚ → Numeric) (fullkey : List Step → String) (l rhs : Json) : ∃ holds : Bool,
    (writeJsonEq false).eval toReal fullkey (sides (some l) rhs) = some holds ∧
      (holds = true ↔ Covered toReal fullkey l rhs ∧ Covered toReal fullkey rhs l) := by
  obtain ⟨a, ha, hleft⟩ := notExists_eval toReal fullkey
    (sides (some l) rhs) (x := .left) (y := .right) rfl rfl
  obtain ⟨b, hb, hright⟩ := notExists_eval toReal fullkey
    (sides (some l) rhs) (x := .right) (y := .left) rfl rfl
  refine ⟨a && b, ?_, by rw [Bool.and_eq_true, hleft, hright]⟩
  simp only [writeJsonEq, Bool.false_eq_true, if_false]
  rw [Condition.eval, Condition.eval, ha, hb]
  cases a <;> cases b <;> rfl

/-- What the condition is to be. -/
structure IsJsonEquality (toReal : ℚ → Numeric) (fullkey : List Step → String) (lhs : Option Json)
    (rhs : Json) : Prop where
  null : (writeJsonEq false).eval toReal fullkey (sides lhs rhs) = none ↔ lhs = none
  equal : ∀ l ∈ lhs,
    ((writeJsonEq false).eval toReal fullkey (sides lhs rhs) = some true ↔ l.Equal rhs)
  ne : (writeJsonEq true).eval toReal fullkey (sides lhs rhs) =
    ((writeJsonEq false).eval toReal fullkey (sides lhs rhs)).map Bool.not

/-- Where two values are the same but for their numbers, their numbers are equal place by place exactly
if SQLite reads them as equal. -/
def NumbersKept (toReal : ℚ → Numeric) (v w : Json) : Prop :=
  v.Alike (fun _ _ => True) w →
    ((∀ q m n, At Json.label Json.Child v q (.number m) → At Json.label Json.Child w q (.number n) →
        m.read toReal = n.read toReal) ↔
      ∀ q m n, At Json.label Json.Child v q (.number m) → At Json.label Json.Child w q (.number n) →
        m.value = n.value)

/-- The condition is equality of JSON if and only if SQLite tells the numbers apart that differ, and no
others. -/
theorem json_eq_iff (hkey : Function.Injective fullkey) {lhs : Option Json} {rhs : Json}
    (hl : ∀ l ∈ lhs, l.WellFormed) (hr : rhs.WellFormed) :
    IsJsonEquality toReal fullkey lhs rhs ↔ ∀ l ∈ lhs, NumbersKept toReal l rhs := by
  cases lhs with
  | none =>
    constructor
    · intro _ l hmem
      cases hmem
    · intro _
      refine ⟨by simp, ?_, by simp⟩
      intro l hmem
      cases hmem
  | some l =>
    have hwf := hl l rfl
    obtain ⟨holds, heval, hholds⟩ := eval_some toReal fullkey l rhs
    rw [covered_both_iff hkey hwf hr, alike_iff_numbers hwf hr] at hholds
    have hequal : l.Equal rhs ↔ _ := alike_iff_numbers hwf hr
    have hmain : (holds = true ↔ l.Equal rhs) ↔ NumbersKept toReal l rhs := by
      rw [hholds, hequal, NumbersKept]
      tauto
    constructor
    · intro h l' hmem
      cases hmem
      have hspec := h.equal l rfl
      rw [heval, Option.some.injEq] at hspec
      exact hmain.mp hspec
    · intro h
      refine ⟨by simp [heval], ?_, ?_⟩
      · intro l' hmem
        cases hmem
        rw [heval, Option.some.injEq]
        exact hmain.mpr (h l rfl)
      · rfl

end Equality

/-- Rounding to an integer, ties to even. -/
private def roundEven (x : ℚ) : ℤ :=
  if x - ⌊x⌋ < 1 / 2 ∨ x - ⌊x⌋ = 1 / 2 ∧ ⌊x⌋ % 2 = 0 then ⌊x⌋ else ⌊x⌋ + 1

/-- The nearest double. -/
private def nearestDouble (q : ℚ) : Numeric :=
  let e := max (Int.log 2 |q| - 52) (-1074)
  let x : ℚ := roundEven (|q| / 2 ^ e) * 2 ^ e
  if 2 ^ 1024 ≤ x then .infinite (q < 0) else .finite (if q < 0 then -x else x)

private def escape (c : Char) : List Char :=
  if c = '"' then ['\\', 'u', '0', '0', '2', '2']
  else if c = '\\' then ['\\', 'u', '0', '0', '5', 'c']
  else [c]

private def stepText : Step → List Char
  | .index i => '[' :: Numeral.numeral 0 i ++ [']']
  | .key k => '.' :: '"' :: k.toList.flatMap escape ++ ['"']

/-- The path of a node, every key in quotes. -/
private def pathText (q : List Step) : String := String.ofList ('$' :: q.flatMap stepText)

private theorem escape_prefixFree : PrefixCode.PrefixFree escape := by
  intro a b s t hab
  by_cases ha : a = '"'
  · by_cases hb : b = '"'
    · simpa [escape, ha, hb] using hab
    · by_cases hb' : b = '\\'
      · simp [escape, ha, hb'] at hab
      · simp [escape, ha, hb, hb', eq_comm] at hab
  · by_cases ha' : a = '\\'
    · by_cases hb : b = '"'
      · simp [escape, ha', hb] at hab
      · by_cases hb' : b = '\\'
        · simpa [escape, ha', hb'] using hab
        · simp [escape, ha', hb, hb', eq_comm] at hab
    · by_cases hb : b = '"'
      · simp [escape, ha, ha', hb] at hab
      · by_cases hb' : b = '\\'
        · simp [escape, ha, ha', hb'] at hab
        · simpa [escape, ha, ha', hb, hb'] using hab

private theorem stepText_prefixFree : PrefixCode.PrefixFree stepText := by
  have hindex : PrefixCode.PrefixFree fun i => Numeral.numeral 0 i ++ [']'] := by
    apply PrefixCode.PrefixFree.of_stop
    · intro i j hij
      have hvalue := congrArg Numeral.value hij
      simpa using hvalue
    · intro i hmem
      have hdigit := Numeral.digits_numeral 0 i _ hmem
      revert hdigit
      decide
  have hkey : PrefixCode.PrefixFree fun k : String => k.toList.flatMap escape ++ ['"'] := by
    apply PrefixCode.PrefixFree.of_stop
    · intro k k' h
      apply String.toList_injective
      apply escape_prefixFree.flatMap_injective _ h
      intro c
      unfold escape
      split
      · simp
      · split <;> simp
    · intro k hmem
      obtain ⟨c, _, hc⟩ := List.mem_flatMap.mp hmem
      unfold escape at hc
      split at hc
      · simp at hc
      · split at hc
        · simp at hc
        · rename_i hquote _
          exact hquote (List.mem_singleton.mp hc).symm
  intro a b s t hab
  cases a with
  | index i =>
    cases b with
    | index j =>
      have hparts := hindex i j s t (List.cons.inj hab).2
      exact ⟨congrArg Step.index hparts.1, hparts.2⟩
    | key k => simp [stepText] at hab
  | key k =>
    cases b with
    | index j => simp [stepText] at hab
    | key k' =>
      have hparts := hkey k k' s t (List.cons.inj (List.cons.inj hab).2).2
      exact ⟨congrArg Step.key hparts.1, hparts.2⟩

private theorem pathText_injective : Function.Injective pathText := by
  intro p q h
  have hchars := String.ofList_injective h
  apply stepText_prefixFree.flatMap_injective _ (List.cons.inj hchars).2
  intro s
  cases s <;> simp [stepText]

private theorem mem_nodes_of_at {v : Json} {q : List Step} {a : Label} (h : At Json.label Json.Child v q a) :
    (q, a) ∈ nodes [] v := (mem_nodes [] v (q, a)).mpr ⟨q, rfl, h⟩

private def spread : Json :=
  .object [("pages", .array [.number (.integer 1), .object [("from", .null), ("to", .number (.integer 2))]]),
    ("open", .bool true)]

/-- The same with its keys the other way round, and reals. -/
private def spreadReordered : Json :=
  .object [("open", .bool true),
    ("pages", .array [.number (.real 1), .object [("to", .number (.real 2)), ("from", .null)]])]

private theorem spread_numbers {q : List Step} {n : Number}
    (h : At Json.label Json.Child spread q (.number n)) :
    q = [.key "pages", .index 0] ∧ n = .integer 1 ∨ q = [.key "pages", .index 1, .key "to"] ∧ n = .integer 2 := by
  simpa [spread, nodes, itemNodes, memberNodes] using mem_nodes_of_at h

private theorem spreadReordered_numbers {q : List Step} {n : Number}
    (h : At Json.label Json.Child spreadReordered q (.number n)) :
    q = [.key "pages", .index 0] ∧ n = .real 1 ∨ q = [.key "pages", .index 1, .key "to"] ∧ n = .real 2 := by
  simpa [spreadReordered, nodes, itemNodes, memberNodes] using mem_nodes_of_at h

private theorem wellFormed_spread : spread.WellFormed := by
  refine .object (by decide) ?_
  simp only [List.forall_mem_cons]
  refine ⟨.array ?_, .bool true, by simp⟩
  simp only [List.forall_mem_cons]
  refine ⟨.number _, .object (by decide) ?_, by simp⟩
  simp only [List.forall_mem_cons]
  exact ⟨.null, .number _, by simp⟩

private theorem wellFormed_spreadReordered : spreadReordered.WellFormed := by
  refine .object (by decide) ?_
  simp only [List.forall_mem_cons]
  refine ⟨.bool true, .array ?_, by simp⟩
  simp only [List.forall_mem_cons]
  refine ⟨.number _, .object (by decide) ?_, by simp⟩
  simp only [List.forall_mem_cons]
  exact ⟨.number _, .null, by simp⟩

/-- The order of keys is no difference, and 1 is 1.0. -/
theorem json_eq_reordered : IsJsonEquality nearestDouble pathText (some spread) spreadReordered := by
  apply (json_eq_iff pathText_injective _ wellFormed_spreadReordered).mpr
  · intro l hl _
    cases hl
    have hsame : ∀ q m n, At Json.label Json.Child spread q (.number m) →
        At Json.label Json.Child spreadReordered q (.number n) →
        m.read nearestDouble = n.read nearestDouble ∧ m.value = n.value := by
      intro q m n hm hn
      rcases spread_numbers hm with ⟨rfl, rfl⟩ | ⟨rfl, rfl⟩
      · rcases spreadReordered_numbers hn with ⟨-, rfl⟩ | ⟨hq, -⟩
        · exact ⟨by decide +kernel, by simp [Number.value]⟩
        · cases hq
      · rcases spreadReordered_numbers hn with ⟨hq, -⟩ | ⟨-, rfl⟩
        · cases hq
        · exact ⟨by decide +kernel, by simp [Number.value]⟩
    exact iff_of_true (fun q m n hm hn => (hsame q m n hm hn).1) fun q m n hm hn => (hsame q m n hm hn).2
  · intro l hl
    cases hl
    exact wellFormed_spread

/-- Two numbers past 64 bits that are one double. -/
theorem json_eq_large :
    (writeJsonEq false).eval nearestDouble pathText
        (sides (some (.number (.integer (2 ^ 63)))) (.number (.integer (2 ^ 63 + 1)))) = some true ∧
      ¬ (Json.number (.integer (2 ^ 63))).Equal (.number (.integer (2 ^ 63 + 1))) := by
  constructor
  · obtain ⟨holds, heval, hholds⟩ := eval_some nearestDouble pathText
      (.number (.integer (2 ^ 63))) (.number (.integer (2 ^ 63 + 1)))
    rw [covered_both_iff pathText_injective (.number _) (.number _)] at hholds
    rw [heval, hholds.mpr (.number (by decide +kernel))]
  · intro h
    cases h with
    | number h => norm_num [Number.value] at h

end Rustango.Sqlite
