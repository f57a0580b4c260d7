import Mathlib.Data.List.Forall2
import Stencil.Frame
import Stencil.Proofs.Shapes

set_option autoImplicit false

/-!
# Values that resemble each other

Two values of the same shape, with the same leaves except that functions may differ. Nothing that a
template does with them without a call tells them apart. Whether there are functions in them at all,
or safe text, is left open.
-/
namespace Stencil

section
variable {α β : Type} {R : α → β → Prop} {as : List α} {bs : List β}

theorem rel_getElem? (h : List.Forall₂ R as bs) (i : Nat) : Option.Rel R as[i]? bs[i]? := by
  induction h generalizing i with
  | nil => exact .none
  | cons hab _ ih =>
    cases i with
    | zero => exact .some hab
    | succ i => exact ih i

theorem rel_zipIdx (h : List.Forall₂ R as bs) (i : Nat) :
    List.Forall₂ (fun a b => R a.1 b.1 ∧ a.2 = b.2) (as.zipIdx i) (bs.zipIdx i) := by
  induction h generalizing i with
  | nil => exact .nil
  | cons hab _ ih => exact .cons ⟨hab, rfl⟩ (ih (i + 1))

end

inductive EntryRel (R : Value → Value → Prop) : String × Value → String × Value → Prop
  | mk {v w : Value} (key : String) (h : R v w) : EntryRel R (key, v) (key, w)

inductive Value.Resembles (functions safe : Prop) : Value → Value → Prop
  | undefined : Resembles functions safe .undefined .undefined
  | null : Resembles functions safe .null .null
  | bool (b : Bool) : Resembles functions safe (.bool b) (.bool b)
  | number (x : Float) : Resembles functions safe (.number x) (.number x)
  | string (text : String) : Resembles functions safe (.string text) (.string text)
  | safe (h : safe) (text : String) : Resembles functions safe (.safe text) (.safe text)
  | array {vs ws : List Value} (h : List.Forall₂ (Resembles functions safe) vs ws) :
    Resembles functions safe (.array vs) (.array ws)
  | object {a b : List (String × Value)}
    (h : List.Forall₂ (EntryRel (Resembles functions safe)) a b) :
    Resembles functions safe (.object ⟨a⟩) (.object ⟨b⟩)
  | function (h : functions) (f g : Helper) : Resembles functions safe (.function f) (.function g)

def Dict.Resembles (functions safe : Prop) (a b : Object) : Prop :=
  List.Forall₂ (EntryRel (Value.Resembles functions safe)) a.entries b.entries

variable {functions safe : Prop}

namespace Dict.Resembles
variable {a b : Object} {v w : Value}

theorem insert (h : a.Resembles functions safe b) (key : String)
    (hv : v.Resembles functions safe w) :
    (a.insert key v).Resembles functions safe (b.insert key w) := by
  obtain ⟨a⟩ := a
  obtain ⟨b⟩ := b
  change List.Forall₂ _ (insertEntry key v a) (insertEntry key w b)
  change List.Forall₂ _ a b at h
  induction h with
  | nil => exact .cons (.mk key hv) .nil
  | cons hentry hrest ih =>
    cases hentry with
    | mk other h =>
      rw [insertEntry, insertEntry]
      split
      · next hkey =>
        subst hkey
        exact .cons (.mk other hv) hrest
      · exact .cons (.mk other h) ih

theorem extend (h : a.Resembles functions safe b) {entries entries' : List (String × Value)}
    (hentries : List.Forall₂ (EntryRel (Value.Resembles functions safe)) entries entries') :
    (a.extend entries).Resembles functions safe (b.extend entries') := by
  induction hentries generalizing a b with
  | nil => exact h
  | cons hentry _ ih =>
    cases hentry with
    | mk key hv => exact ih (h.insert key hv)

theorem ofList {entries entries' : List (String × Value)}
    (h : List.Forall₂ (EntryRel (Value.Resembles functions safe)) entries entries') :
    (Dict.ofList entries).Resembles functions safe (Dict.ofList entries') :=
  extend (a := ⟨[]⟩) (b := ⟨[]⟩) .nil h

theorem getD (h : a.Resembles functions safe b) (key : String) :
    ((a.get? key).getD .undefined).Resembles functions safe ((b.get? key).getD .undefined) := by
  obtain ⟨a⟩ := a
  obtain ⟨b⟩ := b
  change ((firstEntry key a).getD .undefined).Resembles functions safe
    ((firstEntry key b).getD .undefined)
  change List.Forall₂ _ a b at h
  induction h with
  | nil => exact .undefined
  | cons hentry _ ih =>
    cases hentry with
    | mk other hv =>
      rw [firstEntry, firstEntry]
      split
      · exact hv
      · exact ih

end Dict.Resembles

namespace Value

mutual

theorem text_of_resembles : (v w : Value) → v.Resembles functions safe w → v.text = w.text
  | .array vs, _, .array h => by
    rw [text, text, texts_of_resembles vs _ h]
  | .object _, _, .object _ => rfl
  | .function _, _, .function _ _ _ => rfl
  | .undefined, _, .undefined => rfl
  | .null, _, .null => rfl
  | .bool _, _, .bool _ => rfl
  | .number _, _, .number _ => rfl
  | .string _, _, .string _ => rfl
  | .safe _, _, .safe _ _ => rfl

theorem texts_of_resembles : (vs ws : List Value) →
    List.Forall₂ (Value.Resembles functions safe) vs ws → texts vs = texts ws
  | [], _, .nil => rfl
  | v :: vs, _, .cons h hs => by
    rw [texts, texts, text_of_resembles v _ h, texts_of_resembles vs _ hs]

end

mutual

theorem inspect_of_resembles : (v w : Value) → v.Resembles functions safe w → v.inspect = w.inspect
  | .array vs, _, .array h => by
    rw [inspect, inspect, inspectItems_of_resembles vs _ h]
  | .object ⟨a⟩, _, .object h => by
    rw [inspect, inspect, inspectEntries_of_resembles a _ h]
  | .function _, _, .function _ _ _ => by rw [inspect, inspect]; exacts [rfl, nofun, nofun, nofun, nofun]
  | .undefined, _, .undefined => rfl
  | .null, _, .null => rfl
  | .bool _, _, .bool _ => rfl
  | .number _, _, .number _ => rfl
  | .string _, _, .string _ => rfl
  | .safe _, _, .safe _ _ => rfl

theorem inspectItems_of_resembles : (vs ws : List Value) →
    List.Forall₂ (Value.Resembles functions safe) vs ws → inspectItems vs = inspectItems ws
  | [], _, .nil => rfl
  | v :: vs, _, .cons h hs => by
    rw [inspectItems, inspectItems, inspect_of_resembles v _ h, inspectItems_of_resembles vs _ hs]

theorem inspectEntries_of_resembles : (a b : List (String × Value)) →
    List.Forall₂ (EntryRel (Value.Resembles functions safe)) a b →
      inspectEntries a = inspectEntries b
  | [], _, .nil => rfl
  | (key, v) :: a, _, .cons (.mk _ h) hs => by
    rw [inspectEntries, inspectEntries, inspect_of_resembles v _ h,
      inspectEntries_of_resembles a _ hs]

end

namespace Resembles
variable {v w : Value}

theorem text (h : v.Resembles functions safe w) : v.text = w.text := text_of_resembles v w h

theorem inspect (h : v.Resembles functions safe w) : v.inspect = w.inspect :=
  inspect_of_resembles v w h

theorem escaped (h : v.Resembles functions safe w) : v.escaped = w.escaped := by
  have htext := h.text
  cases h <;> first | rfl | exact congrArg Html.escape htext

theorem isTruthy (h : v.Resembles functions safe w) : v.isTruthy = w.isTruthy := by
  cases h <;> rfl

theorem isEmpty (h : v.Resembles functions safe w) : v.isEmpty = w.isEmpty := by
  cases h with
  | array h => cases h <;> rfl
  | _ => rfl

theorem isArray (h : v.Resembles functions safe w) : v.isArray = w.isArray := by
  cases h <;> rfl

theorem isObject (h : v.Resembles functions safe w) : v.isObject = w.isObject := by
  cases h <;> rfl

theorem isNullish (h : v.Resembles functions safe w) : v.isNullish = w.isNullish := by
  cases h <;> rfl

theorem of_isConstant (h : v.IsConstant) : v.Resembles functions safe v := by
  cases v with
  | bool b => exact .bool b
  | number x => exact .number x
  | string text => exact .string text
  | _ => cases h

theorem get (h : v.Resembles functions safe w) (key : String) :
    (v.get key).Resembles functions safe (w.get key) := by
  cases h with
  | @array vs ws h =>
    rw [Value.get, Value.get, h.length_eq]
    split
    · exact .number _
    · cases position? key with
      | none => exact .undefined
      | some i =>
        rw [Option.bind_some, Option.bind_some]
        have hitem := rel_getElem? h i
        generalize vs[i]? = item, ws[i]? = item' at hitem ⊢
        cases hitem with
        | none => exact .undefined
        | some hitem => exact hitem
  | object h => exact Dict.Resembles.getD (a := ⟨_⟩) (b := ⟨_⟩) h key
  | string text | safe _ text =>
    rw [Value.get]
    split
    · exact .number _
    · exact .undefined
  | _ => exact .undefined

theorem follow {owner owner' : Value} (howner : owner.Resembles functions safe owner')
    (h : v.Resembles functions safe w) (names : List String) :
    (Value.follow owner v names).1.Resembles functions safe (Value.follow owner' w names).1 ∧
      (Value.follow owner v names).2.Resembles functions safe (Value.follow owner' w names).2 := by
  induction names generalizing owner owner' v w with
  | nil => exact ⟨howner, h⟩
  | cons name names ih =>
    rw [Value.follow, Value.follow, h.isNullish]
    split
    · exact ⟨howner, h⟩
    · exact ih h (h.get name)

end Resembles
end Value

namespace Value

mutual

theorem Resembles.refl : (v : Value) → v.Resembles True True v
  | .undefined => .undefined
  | .null => .null
  | .bool b => .bool b
  | .number x => .number x
  | .string text => .string text
  | .safe text => .safe True.intro text
  | .array items => .array (items_resemble items)
  | .object ⟨entries⟩ => .object (entries_resemble entries)
  | .function f => .function True.intro f f

theorem items_resemble : (vs : List Value) → List.Forall₂ (Value.Resembles True True) vs vs
  | [] => .nil
  | v :: vs => .cons (.refl v) (items_resemble vs)

theorem entries_resemble :
    (entries : List (String × Value)) →
      List.Forall₂ (EntryRel (Value.Resembles True True)) entries entries
  | [] => .nil
  | (key, v) :: rest => .cons (.mk key (.refl v)) (entries_resemble rest)

end

end Value

theorem Dict.Resembles.refl (a : Object) : a.Resembles True True a := Value.entries_resemble a.entries

namespace Builtin
variable {data data' : Object} {v w : Value}

theorem roundData_resembles (h : data.Resembles functions safe data') (first : Bool) (key : String)
    (hv : v.Resembles functions safe w) (index : Nat) :
    (roundData data first (key, v) index).Resembles functions safe
      (roundData data' first (key, w) index) :=
  ((h.insert "first" (.bool first)).insert key hv).insert "index" (.number _)

def RoundRel (functions safe : Prop) (r r' : Value × Object) : Prop :=
  r.1.Resembles functions safe r'.1 ∧ r.2.Resembles functions safe r'.2

theorem rounds_resemble (h : data.Resembles functions safe data')
    (hv : v.Resembles functions safe w) :
    List.Forall₂ (RoundRel functions safe) (rounds data v) (rounds data' w) := by
  cases hv with
  | @array vs ws hs =>
    rw [rounds, rounds, hs.length_eq]
    refine List.rel_map ?_ (rel_zipIdx hs 0)
    rintro ⟨v, i⟩ ⟨w, _⟩ ⟨hvw, rfl⟩
    exact ⟨hvw, roundData_resembles h _ _ (.bool _) i⟩
  | object hs =>
    refine List.rel_map ?_ (rel_zipIdx hs 0)
    rintro ⟨_, i⟩ ⟨_, _⟩ ⟨⟨key, hvw⟩, rfl⟩
    exact ⟨hvw, roundData_resembles h _ _ (.string key) i⟩
  | _ => exact .nil

end Builtin

structure Level.Resembles (functions safe : Prop) (l l' : Level) : Prop where
  context : l.context.Resembles functions safe l'.context
  data : l.data.Resembles functions safe l'.data

structure Frame.Resembles (functions safe : Prop) (f f' : Frame) : Prop where
  level : f.toLevel.Resembles functions safe f'.toLevel
  hash : f.hash.Resembles functions safe f'.hash
  name : f.name = f'.name
  bodies : f.bodies = f'.bodies
  links : f.links = f'.links
  outer : List.Forall₂ (Level.Resembles functions safe) f.outer f'.outer

namespace Frame.Resembles
variable {f f' : Frame} {this this' : Value}

theorem root (hthis : this.Resembles functions safe this') {seed seed' : Object}
    (hseed : seed.Resembles functions safe seed') (links : Dict Target) :
    (Frame.root this seed links).Resembles functions safe (Frame.root this' seed' links) where
  level := ⟨.undefined, Dict.Resembles.extend (.cons (.mk "root" hthis) .nil) hseed⟩
  hash := .nil
  name := rfl
  bodies := rfl
  links := rfl
  outer := .nil

theorem included (h : f.Resembles functions safe f') (hthis : this.Resembles functions safe this')
    (links : Dict Target) :
    (f.included this links).Resembles functions safe (f'.included this' links) where
  level := ⟨hthis, h.level.data⟩
  hash := .nil
  name := rfl
  bodies := rfl
  links := rfl
  outer := .cons h.level h.outer

theorem enter (h : f.Resembles functions safe f') (hthis : this.Resembles functions safe this')
    (name : String) {hash hash' : Object} (hhash : hash.Resembles functions safe hash')
    (bodies : Option (List Item × List Item)) (chained : Bool) :
    (f.enter this name hash bodies chained).Resembles functions safe
      (f'.enter this' name hash' bodies chained) where
  level := ⟨hthis, h.level.data⟩
  hash := hhash
  name := rfl
  bodies := rfl
  links := h.links
  outer := by
    have hempty : f.outer.isEmpty = f'.outer.isEmpty := by
      have houter := h.outer
      generalize f.outer = levels, f'.outer = levels' at houter
      cases houter <;> rfl
    unfold Frame.enter
    dsimp only
    rw [hempty]
    split
    · exact h.outer
    · exact .cons h.level h.outer

theorem withData (h : f.Resembles functions safe f') {data data' : Option Object}
    (hdata : Option.Rel (Dict.Resembles functions safe) data data') :
    (f.withData data).Resembles functions safe (f'.withData data') := by
  cases hdata with
  | none => exact h
  | some hdata => exact ⟨⟨h.level.context, hdata⟩, h.hash, h.name, h.bodies, h.links, h.outer⟩

theorem walk (h : f.Resembles functions safe f') (n : Nat) :
    Option.Rel (Level.Resembles functions safe) (f.walk n) (f'.walk n) :=
  rel_getElem? (.cons h.level h.outer) n

theorem walk_getD (h : f.Resembles functions safe f') (n : Nat) {part : Level → Value}
    (hpart : ∀ l l', l.Resembles functions safe l' → (part l).Resembles functions safe (part l')) :
    (((f.walk n).map part).getD .undefined).Resembles functions safe
      (((f'.walk n).map part).getD .undefined) := by
  have hwalk := h.walk n
  generalize f.walk n = level, f'.walk n = level' at hwalk ⊢
  cases hwalk with
  | none => exact .undefined
  | some hlevel => exact hpart _ _ hlevel

theorem base (h : f.Resembles functions safe f') (hthis : this.Resembles functions safe this')
    (ref : Reference) : (f.base this ref).Resembles functions safe (f'.base this' ref) := by
  unfold Frame.base
  split
  · exact h.walk_getD _ fun _ _ hlevel => .object hlevel.data
  · exact hthis
  · exact h.walk_getD _ fun _ _ hlevel => hlevel.context

theorem find (h : f.Resembles functions safe f') (hthis : this.Resembles functions safe this')
    (ref : Reference) :
    (f.find this ref).1.Resembles functions safe (f'.find this' ref).1 ∧
      (f.find this ref).2.Resembles functions safe (f'.find this' ref).2 :=
  Value.Resembles.follow .undefined (h.base hthis ref) ref.names

end Frame.Resembles
end Stencil
