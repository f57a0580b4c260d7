import Mathlib.Data.List.Perm.Subperm
import Stencil.Proofs.EqualNumbers
import Stencil.Value.Equality

set_option autoImplicit false

/-!
# Equality of values

Values are equal that have equal values in the same places, numbers that are equal and the same texts
and functions. So nothing that is read off a value tells it from an equal one, and the order in which
the keys of an object were written makes no difference (`Value.beq_congruence`).
-/
namespace Stencil

section
variable {α : Type} {R : α → α → Prop} {o p q : Option α}

theorem rel_symm (h : Option.Rel R o p) (hR : ∀ v w, o = some v → p = some w → R v w → R w v) :
    Option.Rel R p o := by
  cases h with
  | none => exact .none
  | some h => exact .some (hR _ _ rfl rfl h)

theorem rel_trans (h : Option.Rel R o p) (h' : Option.Rel R p q)
    (hR : ∀ u v w, o = some u → p = some v → q = some w → R u v → R v w → R u w) :
    Option.Rel R o q := by
  cases h with
  | none => exact h'
  | some h =>
    cases h' with
    | some h' => exact .some (hR _ _ _ rfl rfl rfl h h')

theorem rel_map {β : Type} {f : α → β} (h : Option.Rel R o p)
    (hf : ∀ v w, o = some v → p = some w → R v w → f v = f w) : o.map f = p.map f := by
  cases h with
  | none => rfl
  | some h => exact congrArg some (hf _ _ rfl rfl h)

theorem rel_isSome (h : Option.Rel R o p) : o.isSome = p.isSome := by
  cases h <;> rfl

theorem map_eq_of_rel {β : Type} {f : α → β} {as bs : List α} (h : ∀ i : Nat, Option.Rel R as[i]? bs[i]?)
    (hf : ∀ (i : Nat) v w, as[i]? = some v → bs[i]? = some w → R v w → f v = f w) :
    as.map f = bs.map f := by
  refine List.ext_getElem? fun i => ?_
  rw [List.getElem?_map, List.getElem?_map]
  exact rel_map (h i) (hf i)

theorem length_eq_of_rel {as bs : List α} (h : ∀ i : Nat, Option.Rel R as[i]? bs[i]?) :
    as.length = bs.length := by
  have hmap := map_eq_of_rel (f := fun _ => ()) h fun _ _ _ _ _ _ => rfl
  simpa using congrArg List.length hmap

end

namespace Value

abbrev Equal (a b : Value) : Prop := (a == b) = true

/-- Every object in the value has each of its keys once, as one that was made by writes does
(`Dict.distinct_ofList`). -/
inductive Keyed : Value → Prop
  | undefined : Keyed .undefined
  | null : Keyed .null
  | bool (b : Bool) : Keyed (.bool b)
  | number (x : Float) : Keyed (.number x)
  | string (text : String) : Keyed (.string text)
  | safe (text : String) : Keyed (.safe text)
  | array {items : List Value} (h : ∀ item ∈ items, Keyed item) : Keyed (.array items)
  | object {fields : Object} (hd : fields.Distinct) (h : ∀ entry ∈ fields.entries, Keyed entry.2) :
    Keyed (.object fields)
  | function (f : Helper) : Keyed (.function f)

theorem sameItems_iff {as bs : List Value} :
    sameItems as bs = true ↔ ∀ i : Nat, Option.Rel Equal as[i]? bs[i]? := by
  induction as generalizing bs with
  | nil =>
    cases bs with
    | nil => exact ⟨fun _ _ => .none, fun _ => rfl⟩
    | cons b bs => exact ⟨nofun, fun h => nomatch h 0⟩
  | cons a as ih =>
    cases bs with
    | nil => exact ⟨nofun, fun h => nomatch h 0⟩
    | cons b bs =>
      rw [sameItems, Bool.and_eq_true, ih]
      constructor
      · rintro ⟨hfirst, hrest⟩ i
        cases i with
        | zero => exact .some hfirst
        | succ i => exact hrest i
      · intro h
        refine ⟨?_, fun i => h (i + 1)⟩
        cases h 0 with
        | some hfirst => exact hfirst

theorem sameFields_iff {entries : List (String × Value)} {fields : Object} :
    sameFields entries fields = true ↔
      ∀ entry ∈ entries, ∃ w, fields.get? entry.1 = some w ∧ entry.2.Equal w := by
  induction entries with
  | nil => exact ⟨fun _ => nofun, fun _ => rfl⟩
  | cons entry entries ih =>
    rw [sameFields, Bool.and_eq_true, ih, List.forall_mem_cons]
    refine and_congr ?_ Iff.rfl
    cases fields.get? entry.1 with
    | none => simp
    | some w => simp [Equal, BEq.beq]

/-- Of two objects of one size, the keys of the second are those of the first if these are among them. -/
theorem get?_eq_none_of_entries {a b : Object} (ha : a.Distinct) (hsize : a.size = b.size)
    (hkeys : ∀ entry ∈ a.entries, ∃ w, b.get? entry.1 = some w) {key : String}
    (h : a.get? key = none) : b.get? key = none := by
  have hsubset : a.keys ⊆ b.keys := by
    intro key hkey
    obtain ⟨entry, hentry, rfl⟩ := List.mem_map.1 hkey
    obtain ⟨w, hw⟩ := hkeys entry hentry
    exact Dict.mem_keys_of_get? hw
  have hlength : b.keys.length ≤ a.keys.length := by
    rw [Dict.keys, Dict.keys, List.length_map, List.length_map]
    exact Nat.le_of_eq hsize.symm
  have hperm : a.keys.Perm b.keys := (ha.subperm hsubset).perm_of_length_le hlength
  rw [Option.eq_none_iff_forall_ne_some]
  intro w hw
  have hsome := ha.mem_keys_iff.1 (hperm.mem_iff.2 (Dict.mem_keys_of_get? hw))
  rw [h] at hsome
  cases hsome

theorem size_eq_of_rel {a b : Object} (ha : a.Distinct) (hb : b.Distinct)
    (h : ∀ key, Option.Rel Equal (a.get? key) (b.get? key)) : a.size = b.size := by
  have hperm : a.keys.Perm b.keys := by
    rw [List.perm_ext_iff_of_nodup ha hb]
    intro key
    rw [ha.mem_keys_iff, hb.mem_keys_iff, rel_isSome (h key)]
  have hlength := hperm.length_eq
  rwa [Dict.keys, Dict.keys, List.length_map, List.length_map] at hlength

theorem object_equal_iff {a b : Object} (ha : a.Distinct) (hb : b.Distinct) :
    (object a).Equal (object b) ↔ ∀ key, Option.Rel Equal (a.get? key) (b.get? key) := by
  change same (object a) (object b) = true ↔ _
  rw [same, Bool.and_eq_true, decide_eq_true_eq, sameFields_iff]
  constructor
  · rintro ⟨hsize, hentries⟩ key
    cases hv : a.get? key with
    | none =>
      have hkeys : ∀ entry ∈ a.entries, ∃ w, b.get? entry.1 = some w := fun entry hentry =>
        (hentries entry hentry).imp fun _ => And.left
      rw [get?_eq_none_of_entries ha hsize hkeys hv]
      exact .none
    | some v =>
      obtain ⟨w, hw, hequal⟩ := hentries (key, v) (Dict.mem_of_firstEntry hv)
      rw [hw]
      exact .some hequal
  · intro h
    refine ⟨size_eq_of_rel ha hb h, fun entry hentry => ?_⟩
    have hrel := h entry.1
    rw [show a.get? entry.1 = some entry.2 from Dict.firstEntry_of_mem ha hentry] at hrel
    generalize hw : b.get? entry.1 = w at hrel
    cases hrel with
    | some hequal => exact ⟨_, rfl, hequal⟩

inductive EqualTop : Value → Value → Prop
  | undefined : EqualTop .undefined .undefined
  | null : EqualTop .null .null
  | bool (b : Bool) : EqualTop (.bool b) (.bool b)
  | number {x y : Float} (h : (x == y) = true) : EqualTop (.number x) (.number y)
  | string (text : String) : EqualTop (.string text) (.string text)
  | safe (text : String) : EqualTop (.safe text) (.safe text)
  | array {as bs : List Value} (h : ∀ i : Nat, Option.Rel Equal as[i]? bs[i]?) :
    EqualTop (.array as) (.array bs)
  | object {a b : Object} (h : ∀ key, Option.Rel Equal (a.get? key) (b.get? key)) :
    EqualTop (.object a) (.object b)
  | function (f : Helper) : EqualTop (.function f) (.function f)

variable {a b c : Value}

theorem equal_iff (ha : a.Keyed) (hb : b.Keyed) : a.Equal b ↔ EqualTop a b := by
  constructor
  · intro h
    cases ha with
    | undefined => cases hb <;> first | exact .undefined | cases h
    | null => cases hb <;> first | exact .null | cases h
    | bool x => cases hb <;> first | cases of_decide_eq_true h; exact .bool x | cases h
    | number x => cases hb <;> first | exact .number h | cases h
    | string x => cases hb <;> first | cases of_decide_eq_true h; exact .string x | cases h
    | safe x => cases hb <;> first | cases of_decide_eq_true h; exact .safe x | cases h
    | array _ => cases hb <;> first | exact .array (sameItems_iff.1 h) | cases h
    | object hd _ =>
      cases hb with
      | object hd' _ => exact .object ((object_equal_iff hd hd').1 h)
      | _ => cases h
    | function f => cases hb <;> first | cases of_decide_eq_true h; exact .function f | cases h
  · intro h
    cases h with
    | undefined => rfl
    | null => rfl
    | bool x => exact decide_eq_true rfl
    | number h => exact h
    | string x => exact decide_eq_true rfl
    | safe x => exact decide_eq_true rfl
    | array h => exact sameItems_iff.2 h
    | object h =>
      cases ha with
      | object hd _ =>
        cases hb with
        | object hd' _ => exact (object_equal_iff hd hd').2 h
    | function f => exact decide_eq_true rfl

inductive Part : Value → Value → Prop
  | item {items : List Value} {i : Nat} {v : Value} (h : items[i]? = some v) : Part (.array items) v
  | field {fields : Object} {key : String} {v : Value} (h : fields.get? key = some v) :
    Part (.object fields) v

theorem Keyed.part {v : Value} (ha : a.Keyed) (h : Part a v) : v.Keyed := by
  cases h with
  | item h =>
    cases ha with
    | array hitems => exact hitems _ (List.mem_of_getElem? h)
  | field h =>
    cases ha with
    | object _ hfields => exact hfields _ (Dict.mem_of_firstEntry h)

@[elab_as_elim] theorem Keyed.induct {P : Value → Prop} (ha : a.Keyed)
    (hstep : ∀ a, a.Keyed → (∀ v, Part a v → P v) → P a) : P a := by
  induction ha with
  | array hitems ih =>
    refine hstep _ (.array hitems) fun v hv => ?_
    cases hv with
    | item hv => exact ih v (List.mem_of_getElem? hv)
  | object hd hfields ih =>
    refine hstep _ (.object hd hfields) fun v hv => ?_
    cases hv with
    | field hv => exact ih _ (Dict.mem_of_firstEntry hv)
  | undefined => exact hstep _ .undefined nofun
  | null => exact hstep _ .null nofun
  | bool x => exact hstep _ (.bool x) nofun
  | number x => exact hstep _ (.number x) nofun
  | string x => exact hstep _ (.string x) nofun
  | safe x => exact hstep _ (.safe x) nofun
  | function f => exact hstep _ (.function f) nofun

theorem Equal.symm (ha : a.Keyed) : ∀ b, b.Keyed → a.Equal b → b.Equal a := by
  refine ha.induct fun a ha ih b hb hab => (equal_iff hb ha).2 ?_
  cases (equal_iff ha hb).1 hab with
  | number h => exact .number (BEq.symm h)
  | array h =>
    exact .array fun i => rel_symm (h i) fun v w hv hw => ih v (.item hv) w (hb.part (.item hw))
  | object h =>
    exact .object fun key => rel_symm (h key) fun v w hv hw =>
      ih v (.field hv) w (hb.part (.field hw))
  | _ => constructor

theorem Equal.trans (ha : a.Keyed) :
    ∀ b c, b.Keyed → c.Keyed → a.Equal b → b.Equal c → a.Equal c := by
  refine ha.induct fun a ha ih b c hb hc hab hbc => (equal_iff ha hc).2 ?_
  have htop := (equal_iff hb hc).1 hbc
  cases (equal_iff ha hb).1 hab with
  | number h =>
    cases htop with
    | number h' => exact .number (PartialEquivBEq.trans h h')
  | array h =>
    cases htop with
    | array h' =>
      exact .array fun i => rel_trans (h i) (h' i) fun u v w hu hv hw =>
        ih u (.item hu) v w (hb.part (.item hv)) (hc.part (.item hw))
  | object h =>
    cases htop with
    | object h' =>
      exact .object fun key => rel_trans (h key) (h' key) fun u v w hu hv hw =>
        ih u (.field hu) v w (hb.part (.field hv)) (hc.part (.field hw))
  | _ => exact htop

theorem text_eq_of_equal (ha : a.Keyed) : ∀ b, b.Keyed → a.Equal b → a.text = b.text := by
  refine ha.induct fun a ha ih b hb hab => ?_
  cases (equal_iff ha hb).1 hab with
  | number h => exact Decimal.numberText_congr h
  | array h =>
    rw [text, text, texts_eq_map, texts_eq_map]
    exact congrArg _ (map_eq_of_rel h fun i v w hv hw =>
      ih v (.item hv) w (hb.part (.item hw)))
  | _ => rfl

theorem escaped_eq_of_equal (ha : a.Keyed) (hb : b.Keyed) (hab : a.Equal b) : a.escaped = b.escaped := by
  have htext := text_eq_of_equal ha b hb hab
  cases (equal_iff ha hb).1 hab with
  | number _ | array _ | object _ => exact congrArg Html.escape htext
  | _ => rfl

theorem isTruthy_eq_of_equal (ha : a.Keyed) (hb : b.Keyed) (hab : a.Equal b) :
    a.isTruthy = b.isTruthy := by
  cases (equal_iff ha hb).1 hab with
  | @number x y h =>
    have hzero : (x == 0) = (y == 0) := BEq.congr_left h
    change (!(x == 0) && !x.isNaN) = (!(y == 0) && !y.isNaN)
    rw [hzero, Decimal.isNaN_of_beq h, Decimal.isNaN_of_beq (BEq.symm h)]
  | _ => rfl

theorem isEmpty_eq_of_equal (ha : a.Keyed) (hb : b.Keyed) (hab : a.Equal b) : a.isEmpty = b.isEmpty := by
  have htruthy := isTruthy_eq_of_equal ha hb hab
  cases (equal_iff ha hb).1 hab with
  | number _ => exact congrArg Bool.not htruthy
  | @array as bs h =>
    change as.isEmpty = bs.isEmpty
    rw [Bool.eq_iff_iff, List.isEmpty_iff_length_eq_zero, List.isEmpty_iff_length_eq_zero,
      length_eq_of_rel h]
  | _ => rfl

theorem ofNat_equal (n : Nat) : (ofNat n).Equal (ofNat n) := Decimal.ofNat_beq_self n

theorem getD_equal {o p : Option Value} (h : Option.Rel Equal o p) :
    (o.getD undefined).Equal (p.getD undefined) := by
  cases h with
  | none => rfl
  | some h => exact h

theorem length_equal (n : Nat) (key : String) :
    (if key = "length" then ofNat n else undefined).Equal
      (if key = "length" then ofNat n else undefined) := by
  split
  · exact ofNat_equal n
  · rfl

theorem get_equal (ha : a.Keyed) (hb : b.Keyed) (hab : a.Equal b) (key : String) :
    (a.get key).Equal (b.get key) := by
  cases (equal_iff ha hb).1 hab with
  | string text => exact length_equal _ key
  | safe text => exact length_equal _ key
  | @array as bs h =>
    change Equal (if key = "length" then ofNat as.length else _)
      (if key = "length" then ofNat bs.length else _)
    rw [length_eq_of_rel h]
    split
    · exact ofNat_equal _
    · refine getD_equal ?_
      cases position? key with
      | none => exact .none
      | some i => exact h i
  | object h => exact getD_equal (h key)
  | _ => rfl

/-- An object is as equal to others in any order of its entries. -/
theorem beq_eq_of_perm {fields fields' : Object} (ha : (object fields).Keyed)
    (hb : (object fields').Keyed) (hperm : fields.entries.Perm fields'.entries) (hc : c.Keyed) :
    (object fields == c) = (object fields' == c) := by
  cases hc with
  | object hd _ =>
    cases ha with
    | object hfields _ =>
      cases hb with
      | object hfields' _ =>
        rw [Bool.eq_iff_iff]
        change Equal _ _ ↔ Equal _ _
        rw [object_equal_iff hfields hd, object_equal_iff hfields' hd]
        simp only [hfields.get?_perm hperm]
  | _ => rfl

theorem object_equal_self {fields : Object} (hd : fields.Distinct)
    (h : ∀ entry ∈ fields.entries, entry.2.Equal entry.2) : (object fields).Equal (object fields) := by
  refine (object_equal_iff hd hd).2 fun key => ?_
  cases hv : fields.get? key with
  | none => exact .none
  | some v => exact .some (h _ (Dict.mem_of_firstEntry hv))

/-- Equality is symmetric and transitive, what is read off equal values is equal, and the order of the
entries of an object makes no difference. -/
theorem beq_congruence {a b : Value} (ha : a.Keyed) (hb : b.Keyed) :
    (a == b) = (b == a) ∧
      (∀ c : Value, c.Keyed → a == b → b == c → a == c) ∧
      (a == b → a.text = b.text ∧ a.escaped = b.escaped ∧ a.isTruthy = b.isTruthy ∧
        a.isEmpty = b.isEmpty ∧ a.isNullish = b.isNullish ∧ a.isArray = b.isArray ∧
        a.isObject = b.isObject ∧ ∀ key, a.get key == b.get key) ∧
      ∀ fields fields' : Object, a = .object fields → b = .object fields' →
        fields.entries.Perm fields'.entries →
          (∀ c : Value, c.Keyed → (a == c) = (b == c)) ∧
            ((∀ entry ∈ fields.entries, entry.2 == entry.2) → a == b) := by
  refine ⟨Bool.eq_iff_iff.2 ⟨Equal.symm ha b hb, Equal.symm hb a ha⟩,
    fun c hc => Equal.trans ha b c hb hc, fun hab => ?_, ?_⟩
  · have htop := (equal_iff ha hb).1 hab
    refine ⟨text_eq_of_equal ha b hb hab, escaped_eq_of_equal ha hb hab,
      isTruthy_eq_of_equal ha hb hab, isEmpty_eq_of_equal ha hb hab, ?_, ?_, ?_, get_equal ha hb hab⟩
    · cases htop <;> rfl
    · cases htop <;> rfl
    · cases htop <;> rfl
  · rintro fields fields' rfl rfl hperm
    have hsame (c : Value) (hc : c.Keyed) := beq_eq_of_perm ha hb hperm hc
    refine ⟨hsame, fun hself => ?_⟩
    have hequal : (object fields).Equal (object fields) := by
      cases ha with
      | object hd _ => exact object_equal_self hd hself
    rw [Equal, hsame _ ha] at hequal
    exact Equal.symm hb _ ha hequal

def point : Value :=
  .object ⟨[("x", .number 0),
    ("labels", .array [.string "<", .object ⟨[("short", .null), ("long", .bool true)]⟩])]⟩

def turnedPoint : Value :=
  .object ⟨[("labels", .array [.string "<", .object ⟨[("long", .bool true), ("short", .null)]⟩]),
    ("x", .number (-0))]⟩

theorem keyed_pair {key key' : String} {v w : Value} (h : key ≠ key') (hv : v.Keyed) (hw : w.Keyed) :
    (Value.object ⟨[(key, v), (key', w)]⟩).Keyed := by
  refine .object ?_ (List.forall_mem_cons.2 ⟨hv, List.forall_mem_singleton.2 hw⟩)
  exact List.nodup_cons.2 ⟨by simpa using h, List.pairwise_singleton _ _⟩

theorem keyed_labels {labels : Value} (h : labels.Keyed) : (array [.string "<", labels]).Keyed :=
  .array (List.forall_mem_cons.2 ⟨.string _, List.forall_mem_singleton.2 h⟩)

/-- Turned around a point is equal to itself, is the same text and has equal labels. -/
theorem beq_congruence_turnedPoint :
    point.Keyed ∧ turnedPoint.Keyed ∧ (point == turnedPoint) = true ∧ (turnedPoint == point) = true ∧
      point.escaped = turnedPoint.escaped ∧ point.get "labels" == turnedPoint.get "labels" := by
  have ha : point.Keyed := keyed_pair (by decide) (.number 0)
    (keyed_labels (keyed_pair (by decide) .null (.bool true)))
  have hb : turnedPoint.Keyed := keyed_pair (by decide)
    (keyed_labels (keyed_pair (by decide) (.bool true) .null)) (.number (-0))
  have hab : (point == turnedPoint) = true := by decide +kernel
  obtain ⟨hsymm, -, hread, -⟩ := beq_congruence ha hb
  obtain ⟨-, hescaped, -, -, -, -, -, hget⟩ := hread hab
  exact ⟨ha, hb, hab, hsymm ▸ hab, hescaped, hget "labels"⟩

end Value
end Stencil
