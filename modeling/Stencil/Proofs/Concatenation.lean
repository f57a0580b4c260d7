import Mathlib
import Stencil.Proofs.Drafts
import Stencil.Proofs.Indifference
import Stencil.Proofs.Rounds

set_option autoImplicit false

/-!
# One source behind another

Nothing that is read of a source depends on what stands behind it, and what stands in front of a
source has no part in how that is read. So two sources that compile make one that does, and its text
is the text of the first with that of the second behind it.
-/
namespace Stencil

namespace Text
variable {cs text inside : List Char}

theorem inFront_eq {front : List Char} {found : List Char × Option (List Char)}
    {tag : Option (List Char)} (h : inFront front found = (text, tag)) :
    ∃ behind, found = (behind, tag) ∧ text = front ++ behind := by
  obtain ⟨behind, tag'⟩ := found
  cases h
  exact ⟨behind, rfl, rfl⟩

theorem inFront_inFront (xs ys : List Char) (found : List Char × Option (List Char)) :
    inFront xs (inFront ys found) = inFront (xs ++ ys) found := by
  unfold inFront
  rw [List.append_assoc]

/-- Whether a tag or a backslash begins in front of a text is seen without what stands behind it. -/
theorem plain_cons_append {c d : Char} {ds : List Char}
    (hslash : ∀ e es, c = '\\' → d :: ds = e :: es → False)
    (hbrace : ∀ es, c = '\x7b' → d :: ds = '\x7b' :: es → False) (more : List Char) :
    plain (c :: d :: ds ++ more) = inFront [c] (plain (d :: ds ++ more)) := by
  rw [List.cons_append, plain]
  · exact fun _ _ hc _ => hslash d ds hc rfl
  · intro es hc he
    cases he
    exact hbrace ds hc rfl

theorem plain_append_some (h : plain cs = (text, some inside)) (more : List Char) :
    plain (cs ++ more) = (text, some (inside ++ more)) := by
  fun_induction plain cs generalizing text with
  | case1 => cases h
  | case2 c cs ih =>
    obtain ⟨behind, hbehind, rfl⟩ := inFront_eq h
    rw [List.cons_append, List.cons_append, plain, ih hbehind]
    rfl
  | case3 cs =>
    cases h
    rfl
  | case4 c cs hslash hbrace ih =>
    obtain ⟨behind, hbehind, rfl⟩ := inFront_eq h
    cases cs with
    | nil => cases hbehind
    | cons d ds =>
      rw [plain_cons_append hslash hbrace, ih hbehind]
      rfl

theorem tag_suffix_of_plain (h : plain cs = (text, some inside)) :
    '\x7b' :: '\x7b' :: inside <:+ cs := by
  fun_induction plain cs generalizing text with
  | case1 => cases h
  | case2 c cs ih =>
    obtain ⟨behind, hbehind, -⟩ := inFront_eq h
    exact (ih hbehind).trans (List.suffix_append ['\\', c] cs)
  | case3 cs =>
    cases h
    exact List.suffix_refl _
  | case4 c cs _ _ ih =>
    obtain ⟨behind, hbehind, -⟩ := inFront_eq h
    exact (ih hbehind).trans (List.suffix_cons c cs)

theorem suffix_of_plain (h : plain cs = (text, some inside)) : inside <:+ cs :=
  (List.suffix_append ['\x7b', '\x7b'] inside).trans (tag_suffix_of_plain h)

/-- A text that more can be written behind: no tag opens across the border, and no backslash takes
what stands there. -/
def Ends (cs : List Char) : Prop := ∀ c ∈ cs.getLast?, c ≠ '\x7b' ∧ c ≠ '\\'

theorem Ends.of_suffix {behind : List Char} (h : Ends cs) (hsuffix : behind <:+ cs) :
    Ends behind := by
  obtain ⟨before, rfl⟩ := hsuffix
  intro c hc
  refine h c ?_
  rw [List.getLast?_append, hc]
  rfl

theorem plain_append_none (h : plain cs = (text, none)) (hends : Ends cs) (more : List Char) :
    plain (cs ++ more) = inFront text (plain more) := by
  fun_induction plain cs generalizing text with
  | case1 =>
    cases h
    rfl
  | case2 c cs ih =>
    obtain ⟨behind, hbehind, rfl⟩ := inFront_eq h
    have hcs := hends.of_suffix (List.suffix_append ['\\', c] cs)
    rw [List.cons_append, List.cons_append, plain, ih hbehind hcs, inFront_inFront]
  | case3 cs => cases h
  | case4 c cs hslash hbrace ih =>
    obtain ⟨behind, hbehind, rfl⟩ := inFront_eq h
    have hcs := hends.of_suffix (List.suffix_cons c cs)
    cases cs with
    | nil =>
      cases hbehind
      exact plain_cons (hends c rfl) more
    | cons d ds => rw [plain_cons_append hslash hbrace, ih hbehind hcs, inFront_inFront]

end Text

namespace Draft
variable {d : Draft} {xs : List Item}

def behind (xs : List Item) (d : Draft) : Draft := { d with items := xs ++ d.items }

theorem place_behind (xs : List Item) (d : Draft) : (d.behind xs).place = d.place := rfl

theorem push_behind (xs : List Item) (item : Item) (d : Draft) :
    (d.behind xs).push item = (d.push item).behind xs := by
  obtain ⟨items, blocks⟩ := d
  cases blocks with
  | nil => exact congrArg (Draft.mk · []) (List.append_assoc xs items [item])
  | cons b outer => rfl

theorem pushText_behind (xs : List Item) (text : List Char) (d : Draft) :
    (d.behind xs).pushText text = (d.pushText text).behind xs := by
  unfold pushText
  split
  · rfl
  · exact push_behind xs _ d

theorem toInverse_behind (xs : List Item) (d : Draft) :
    (d.behind xs).toInverse = d.toInverse.behind xs := by
  obtain ⟨items, blocks⟩ := d
  cases blocks <;> rfl

theorem add_behind (xs : List Item) (tag : Option Tag) (d : Draft) :
    (d.behind xs).add tag = (d.add tag).map (behind xs) := by
  cases tag with
  | none => rfl
  | some tag =>
    cases tag with
    | value escape e => cases escape <;> exact congrArg Except.ok (push_behind xs _ d)
    | opening call => rfl
    | otherwise => exact congrArg Except.ok (toInverse_behind xs d)
    | otherwiseOpening call =>
      exact congrArg (fun d : Draft => Except.ok (d.openBlock call true)) (toInverse_behind xs d)
    | raw call body => exact congrArg Except.ok (push_behind xs _ d)
    | inclusion i => exact congrArg Except.ok (push_behind xs _ d)
    | closing name left =>
      obtain ⟨items, blocks⟩ := d
      cases blocks with
      | nil => rfl
      | cons b outer =>
        unfold add addTag behind
        dsimp only
        cases b.close name outer with
        | error kind => rfl
        | ok closed => exact congrArg Except.ok (push_behind xs _ ⟨items, closed.2⟩)

/-- A tag does the same wherever it stands, unless it fails. -/
theorem add_moved {tag tag' : Option Tag} (h : Option.Rel Tag.Moved tag tag') {d' : Draft}
    (hadd : d.add tag = .ok d') : d.add tag' = .ok d' := by
  cases h with
  | none => exact hadd
  | some h =>
    cases h with
    | same => exact hadd
    | closing name left left' =>
      obtain ⟨items, blocks⟩ := d
      cases blocks with
      | nil => cases hadd
      | cons b outer =>
        unfold add addTag at hadd ⊢
        dsimp only at hadd ⊢
        cases hclose : b.close name outer with
        | error kind =>
          rw [hclose] at hadd
          cases hadd
        | ok closed =>
          rw [hclose] at hadd
          exact hadd

theorem pushText_nil (xs : List Item) (text : List Char) :
    pushText text ⟨xs, []⟩ = behind (xs ++ textItems text) {} := by
  unfold pushText textItems behind
  split
  · simp
  · simp [push]

end Draft

namespace Outline
variable {d : Dialect} {draft : Draft} {trims : Bool} {mark : Nat} {cs text inside : List Char}
  {items : List Item}

/-- The items of an outline that asks for nothing and does not fail. -/
def items? : Outline → Option (List Item)
  | finished items => some items
  | failed _ | asking _ _ _ => none

theorem eq_finished {outline : Outline} (h : outline.items? = some items) :
    outline = finished items := by
  cases outline <;> cases h
  rfl

theorem items?_finish_behind (xs : List Item) (draft : Draft) (mark mark' : Nat) :
    (ofExcept ((draft.behind xs).finish mark)).items? =
      (ofExcept (draft.finish mark')).items?.map (xs ++ ·) := by
  obtain ⟨items, blocks⟩ := draft
  cases blocks <;> rfl

theorem items?_inclusion (hplain : Text.plain cs = (text, some inside))
    (hsigil : (Opener.read inside).sigil = .inclusion) :
    (read d draft trims mark cs).items? = none := by
  rw [read]
  split
  · next hnone =>
    rw [hplain] at hnone
    cases hnone
  · next inside' hsome =>
    rw [hplain] at hsome
    cases hsome
    dsimp only
    split
    · split <;> rfl
    · next hother => exact absurd hsigil hother

theorem read_behind (xs : List Item) (draft : Draft) (trims : Bool) (mark mark' : Nat)
    (cs : List Char) :
    (read d (draft.behind xs) trims mark cs).items? =
      (read d draft trims mark' cs).items?.map (xs ++ ·) := by
  induction hn : cs.length using Nat.strongRecOn generalizing draft trims mark mark' cs with
  | ind n ih =>
    subst hn
    cases hplain : Text.plain cs with
    | mk text tag =>
      cases tag with
      | none =>
        rw [read_none hplain, read_none hplain, Draft.pushText_behind]
        exact items?_finish_behind xs _ mark mark'
      | some inside =>
        by_cases hsigil : (Opener.read inside).sigil = .inclusion
        · rw [items?_inclusion hplain hsigil, items?_inclusion hplain hsigil]
          rfl
        · have hlt := Text.length_lt_of_plain (congrArg Prod.snd hplain)
          have hopener := Opener.read_length inside
          rw [read_some hplain hsigil, read_some hplain hsigil, Draft.pushText_behind]
          generalize draft.pushText _ = pushed
          rw [Draft.place_behind]
          cases TagRead.read d pushed.place (inside.length + 2) (Opener.read inside) with
          | error f => rfl
          | ok r =>
            dsimp only
            rw [Draft.add_behind]
            cases pushed.add r.tag with
            | error f => rfl
            | ok draft' =>
              have hle := r.le
              exact ih r.rest.length (by omega) draft' r.trims _ _ r.rest rfl

theorem items?_mark (mark' : Nat) :
    (read d draft trims mark cs).items? = (read d draft trims mark' cs).items? := by
  have hread := read_behind (d := d) [] draft trims mark mark' cs
  exact hread.trans (congrFun Option.map_id _)

/-- A text in front of a tag is as good as in the draft. -/
theorem read_pushText (hplain : Text.plain cs = (text, some inside))
    (htrims : (Opener.read inside).trims = false) (draft : Draft) (mark : Nat) :
    read d draft false mark cs =
      read d (draft.pushText text) false mark ('\x7b' :: '\x7b' :: inside) := by
  rw [read_pushed hplain, htrims]
  rfl

/-- The first tag of a source is read the same with more text behind the source. -/
theorem read_tag_append (hplain : Text.plain cs = (text, some inside)) (htilde : '~' ∉ cs)
    (h : (read d draft false mark cs).items? = some items) :
    ∃ draft' rest, rest <:+ inside ∧ (read d draft' false mark rest).items? = some items ∧
      ∀ more, (read d draft false mark (cs ++ more)).items? =
        (read d draft' false mark (rest ++ more)).items? := by
  have hsuffix := Text.suffix_of_plain hplain
  by_cases hsigil : (Opener.read inside).sigil = .inclusion
  · rw [items?_inclusion hplain hsigil] at h
    cases h
  · have htrims : (Opener.read inside).trims = false :=
      Bool.eq_false_iff.2 fun htrims => htilde (hsuffix.mem (Opener.mem_of_trims htrims))
    rw [read_some hplain hsigil, htrims] at h
    generalize hpushed : draft.pushText (Text.trimIf false false text) = pushed at h
    cases hr : TagRead.read d pushed.place (inside.length + 2) (Opener.read inside) with
    | error f =>
      rw [hr] at h
      cases h
    | ok r =>
      rw [hr] at h
      dsimp only at h
      cases hadd : pushed.add r.tag with
      | error f =>
        rw [hadd] at h
        cases h
      | ok draft' =>
        rw [hadd] at h
        dsimp only at h
        have hlocal := TagRead.local_of_gives hsigil ⟨r, hr, rfl, rfl, rfl⟩
        have hrest := Opener.rest_suffix inside
        have hafter : r.trims = false := Bool.eq_false_iff.2 fun hafter =>
          htilde (hsuffix.mem (hrest.mem (hlocal.tilde hafter)))
        rw [hafter, items?_mark mark] at h
        refine ⟨draft', r.rest, hlocal.suffix.trans hrest, h, fun more => ?_⟩
        have hopener := Opener.read_append hlocal.brace more
        obtain ⟨tag', hmoved, hgives⟩ := hlocal.append ((inside ++ more).length + 2) more
        rw [← hopener] at hgives
        obtain ⟨r', hr', rfl, htrims', hrest'⟩ := hgives
        rw [read_some (Text.plain_append_some hplain more) (by rw [hopener]; exact hsigil)]
        have htrims'' : (Opener.read (inside ++ more)).trims = false := by
          rw [hopener]
          exact htrims
        rw [htrims'', hpushed, hr']
        dsimp only
        rw [Draft.add_moved hmoved hadd]
        dsimp only
        rw [htrims', hafter, hrest']
        exact items?_mark mark

/-- A source that more can be written behind comes to finished items and a text, and reading goes on
from there with what is written behind it. -/
theorem read_front (htilde : '~' ∉ cs) (hends : Text.Ends cs)
    (h : (read d draft false mark cs).items? = some items) :
    ∃ front text last, items = front ++ textItems text ∧ ∀ more,
      Text.plain (last ++ more) = Text.inFront text (Text.plain more) ∧
        (read d draft false mark (cs ++ more)).items? =
          (read d ⟨front, []⟩ false mark (last ++ more)).items? := by
  induction hn : cs.length using Nat.strongRecOn generalizing draft cs with
  | ind n ih =>
    subst hn
    cases hplain : Text.plain cs with
    | mk text tag =>
      cases tag with
      | none =>
        rw [read_none hplain] at h
        obtain ⟨front, blocks⟩ := draft
        cases blocks with
        | nil =>
          have hpushed := Draft.pushText_nil front text
          change (ofExcept ((Draft.pushText text ⟨front, []⟩).finish mark)).items? = _ at h
          rw [hpushed] at h
          cases h
          exact ⟨front, text, cs, List.append_nil _, fun more =>
            ⟨Text.plain_append_none hplain hends more, rfl⟩⟩
        | cons b outer =>
          unfold Draft.pushText at h
          split at h <;> cases h
      | some inside =>
        obtain ⟨draft', rest, hrest, h, happend⟩ := read_tag_append hplain htilde h
        have hlt := Nat.lt_of_le_of_lt hrest.length_le
          (Text.length_lt_of_plain (congrArg Prod.snd hplain))
        have hsuffix := hrest.trans (Text.suffix_of_plain hplain)
        obtain ⟨front, text, last, hitems, hfront⟩ := ih rest.length hlt
          (fun hmem => htilde (hsuffix.mem hmem)) (hends.of_suffix hsuffix) h rfl
        exact ⟨front, text, last, hitems, fun more =>
          ⟨(hfront more).1, (happend more).trans (hfront more).2⟩⟩

/-- Two sources, one behind the other: only the texts that meet at the border become one. -/
theorem read_append {ts : List Char} {xs ys : List Item} (hcs : '~' ∉ cs) (hts : '~' ∉ ts)
    (hends : Text.Ends cs) (hx : (read d {} false mark cs).items? = some xs)
    (hy : (read d {} false mark ts).items? = some ys) :
    ∃ front u v behind, xs = front ++ textItems u ∧ ys = textItems v ++ behind ∧
      (read d {} false mark (cs ++ ts)).items? = some (front ++ textItems (u ++ v) ++ behind) := by
  obtain ⟨front, u, last, rfl, hfront⟩ := read_front hcs hends hx
  obtain ⟨hlast, hread⟩ := hfront ts
  rw [hread]
  cases hplain : Text.plain ts with
  | mk v tag =>
    rw [hplain] at hlast
    cases tag with
    | none =>
      rw [read_none hplain] at hy
      change (ofExcept ((Draft.pushText v ⟨[], []⟩).finish mark)).items? = _ at hy
      rw [Draft.pushText_nil] at hy
      cases hy
      rw [read_none hlast]
      change ∃ f u' v' b, _ ∧ _ ∧
        (ofExcept ((Draft.pushText (u ++ v) ⟨front, []⟩).finish mark)).items? = _
      rw [Draft.pushText_nil]
      exact ⟨front, u, v, [], rfl, rfl, rfl⟩
    | some inside =>
      have htrims : (Opener.read inside).trims = false := Bool.eq_false_iff.2 fun htrims =>
        hts ((Text.suffix_of_plain hplain).mem (Opener.mem_of_trims htrims))
      rw [read_pushText hplain htrims, Draft.pushText_nil, read_behind _ _ _ _ mark] at hy
      obtain ⟨behind, hbehind, rfl⟩ := Option.map_eq_some_iff.1 hy
      rw [read_pushText hlast htrims, Draft.pushText_nil, read_behind _ _ _ _ mark, hbehind]
      exact ⟨front, u, v, behind, rfl, rfl, rfl⟩

end Outline

def Value.FunctionFree (v : Value) : Prop := v.Resembles False True v

namespace Render
variable {σ α : Type}

def result (x : Render σ α) (world : World σ) : Option (Except TemplateError α) :=
  (x.run world).map Prod.fst

theorem EndsIn.result {x : Render σ α} {state state' : σ} {outcome : Except TemplateError α}
    {events : List Event} (h : x.EndsIn state (some (outcome, state', events)))
    (before : List Event) : x.result ⟨state, before⟩ = some outcome :=
  congrArg (Option.map Prod.fst) (h before)

theorem EndsIn.append {x y : Render σ String} {state : σ}
    {first second : Except TemplateError String} {events events' : List Event}
    (hx : x.EndsIn state (some (first, state, events)))
    (hy : y.EndsIn state (some (second, state, events'))) :
    ∃ events, (do
      let a ← x
      let b ← y
      return a ++ b : Render σ String).EndsIn state (some ((do
        let a ← first
        let b ← second
        return a ++ b), state, events)) := by
  cases first with
  | error e => exact ⟨events, hx.bind_error _⟩
  | ok a =>
    cases second with
    | error e =>
      have herror : (y >>= fun b => (pure (a ++ b) : Render σ String)).EndsIn state
          (some (.error e, state, events')) := hy.bind_error _
      have hboth := hx.bind_ok (f := fun a => y >>= fun b => pure (a ++ b)) herror
      exact ⟨events ++ events', hboth⟩
    | ok b =>
      have hpure : (pure (a ++ b) : Render σ String).EndsIn state (some (.ok (a ++ b), state, [])) :=
        .of_quiet fun _ => rfl
      have hsecond := hy.bind_ok (f := fun b => pure (a ++ b)) hpure
      have hboth := hx.bind_ok (f := fun a => y >>= fun b => pure (a ++ b)) hsecond
      exact ⟨events ++ (events' ++ []), hboth⟩

end Render

section
variable {σ : Type}

theorem Renderer.render_append (r : Renderer σ) (f : Frame) (this : Value) (xs ys : List Item) :
    r.render f this (xs ++ ys) = (do
      let first ← r.render f this xs
      let second ← r.render f this ys
      return first ++ second) := by
  induction xs with
  | nil =>
    rw [List.nil_append, Renderer.render, pure_bind]
    simp
  | cons x xs ih =>
    rw [List.cons_append, Renderer.render, Renderer.render, ih]
    simp only [bind_assoc, pure_bind, String.append_assoc]

theorem Renderer.render_textItems (r : Renderer σ) (f : Frame) (this : Value) (cs : List Char) :
    r.render f this (textItems cs) = pure (String.ofList cs) := by
  unfold textItems
  split
  · next hcs => rw [hcs, Renderer.render]
  · rw [Renderer.render, Renderer.render, Renderer.renderItem, pure_bind, pure_bind]
    simp

end

namespace Template

theorem ofSource_eq_ok_iff {source : String} {t : Template} :
    ofSource source = .ok t ↔
      ∃ items, (Outline.ofSource { helpers := Builtin.registry } source).items? = some items ∧
        t = ⟨source, items, ⟨[]⟩⟩ := by
  unfold ofSource
  generalize Outline.ofSource _ source = outline
  cases outline with
  | finished items =>
    constructor
    · intro h
      cases h
      exact ⟨items, rfl, rfl⟩
    · rintro ⟨_, h, rfl⟩
      cases h
      rfl
  | failed f =>
    constructor
    · intro h
      cases h
    · rintro ⟨_, h, -⟩
      cases h
  | asking name left next =>
    constructor
    · intro h
      cases h
    · rintro ⟨_, h, -⟩
      cases h

theorem includes_ofSource {source : String} {t : Template} (h : ofSource source = .ok t) :
    includes t.items = [] := by
  obtain ⟨items, hitems, rfl⟩ := ofSource_eq_ok_iff.1 h
  have houtline := Outline.eq_finished hitems
  have hsubset : includes items ⊆
      (Outline.ofSource { helpers := Builtin.registry } source).asks :=
    Outline.includes_subset_asks (by rw [houtline]; rfl)
  rw [houtline] at hsubset
  exact List.subset_nil.1 hsubset

/-- A template without partials comes to the same whatever the host and its state, if there are no
functions in its data. -/
theorem steady_of_ofSource {source : String} {t : Template} (h : ofSource source = .ok t)
    (partial? : Dict Target → String → Option Template) {context : Value}
    (hcontext : context.FunctionFree) {seed : Object}
    (hseed : ∀ entry ∈ seed.entries, entry.2.FunctionFree) :
    ∃ outcome events, ∀ {σ : Type} (host : Host σ) (depth : Nat) (state : σ),
      (t.render host partial? depth context seed).EndsIn state (some (outcome, state, events)) := by
  have hcompiled : ofSource t.source = .ok t := by
    obtain ⟨items, -, rfl⟩ := ofSource_eq_ok_iff.1 h
    exact h
  have hfits (item : Item) (hitem : item ∈ t.items) : item.Fits False fun _ => True :=
    ((Compiled.ofSource rfl hcompiled).from item hitem).fits_all (fun _ _ => id) False.elim
  have hseed' : seed.Resembles False True seed :=
    List.forall₂_same.2 fun entry hentry => .mk entry.1 (hseed entry hentry)
  obtain ⟨outcome, events, hends⟩ :=
    render_steady hfits (includes_ofSource h) partial? hcontext hseed'
  exact ⟨outcome, events, fun host depth state => hends host depth hcontext hseed' state⟩

/-- If two sources without tildes compile, and no tag opens across the border between them, so does
the one with the other behind it, and rendering it is rendering the first and then the second. Where
no functions are in the data, it comes to what the two come to on their own: to the text of the first
with that of the second behind it, or to the first error. -/
theorem ofSource_append {s t : String} {a b : Template} (ha : ofSource s = .ok a)
    (hb : ofSource t = .ok b) (hends : Text.Ends s.toList) (hs : '~' ∉ s.toList)
    (ht : '~' ∉ t.toList) :
    ∃ ab, ofSource (s ++ t) = .ok ab ∧
      ∀ (partial? : Dict Target → String → Option Template) (context : Value) (seed : Object),
        (∀ {σ : Type} (host : Host σ) (depth : Nat),
          ab.render host partial? depth context seed = (do
            let first ← a.render host partial? depth context seed
            let second ← b.render host partial? depth context seed
            return first ++ second)) ∧
        (context.FunctionFree → (∀ entry ∈ seed.entries, entry.2.FunctionFree) →
          ∃ first second : Except TemplateError String,
            ∀ {σ : Type} (host : Host σ) (depth : Nat) (world : World σ),
              (a.render host partial? depth context seed).result world = some first ∧
              (b.render host partial? depth context seed).result world = some second ∧
              (ab.render host partial? depth context seed).result world = some (do
                let first ← first
                let second ← second
                return first ++ second)) := by
  have hab : ∃ ab, ofSource (s ++ t) = .ok ab ∧
      ∀ (partial? : Dict Target → String → Option Template) (context : Value) (seed : Object)
        {σ : Type} (host : Host σ) (depth : Nat),
        ab.render host partial? depth context seed = (do
          let first ← a.render host partial? depth context seed
          let second ← b.render host partial? depth context seed
          return first ++ second) := by
    obtain ⟨xs, hxs, rfl⟩ := ofSource_eq_ok_iff.1 ha
    obtain ⟨ys, hys, rfl⟩ := ofSource_eq_ok_iff.1 hb
    obtain ⟨front, u, v, behind, rfl, rfl, hread⟩ := Outline.read_append hs ht hends hxs hys
    rw [← String.toList_append] at hread
    refine ⟨_, ofSource_eq_ok_iff.2 ⟨_, hread, rfl⟩, fun partial? context seed σ host depth => ?_⟩
    unfold render
    simp only [Renderer.render_append, Renderer.render_textItems, String.ofList_append, bind_assoc,
      pure_bind, String.append_assoc]
  obtain ⟨ab, hab, hrender⟩ := hab
  refine ⟨ab, hab, fun partial? context seed => ⟨hrender partial? context seed, ?_⟩⟩
  intro hcontext hseed
  obtain ⟨first, events, hfirst⟩ := steady_of_ofSource ha partial? hcontext hseed
  obtain ⟨second, events', hsecond⟩ := steady_of_ofSource hb partial? hcontext hseed
  refine ⟨first, second, fun host depth world => ?_⟩
  have hx := hfirst host depth world.state
  have hy := hsecond host depth world.state
  rw [hrender]
  obtain ⟨events'', hboth⟩ := hx.append hy
  exact ⟨hx.result world.events, hy.result world.events, hboth.result world.events⟩

def greeting : Template where
  source := "Hi \x7b\x7bname\x7d\x7d, "
  items := [.text "Hi ", .escaped (.reference ⟨false, 0, ["name"]⟩ true), .text ", "]
  links := ⟨[]⟩

theorem ofSource_greeting : ofSource greeting.source = .ok greeting := by cbv

def parting : Template where
  source := "bye\x7b\x7b! end \x7d\x7d."
  items := [.text "bye", .text "."]
  links := ⟨[]⟩

theorem ofSource_parting : ofSource parting.source = .ok parting := by cbv

def named : Value := .object ⟨[("name", .string "<Ann>")]⟩

theorem render_greeting {σ : Type} (host : Host σ) (partial? : Dict Target → String → Option Template)
    (depth : Nat) (world : World σ) :
    (greeting.render host partial? depth named ⟨[]⟩).result world =
      some (.ok "Hi &lt;Ann&gt;, ") := rfl

theorem render_parting {σ : Type} (host : Host σ) (partial? : Dict Target → String → Option Template)
    (depth : Nat) (world : World σ) :
    (parting.render host partial? depth named ⟨[]⟩).result world = some (.ok "bye.") := rfl

/-- The greeting with the parting behind it. -/
theorem ofSource_greeting_append :
    ofSource greeting.source = .ok greeting ∧ ofSource parting.source = .ok parting ∧
      Text.Ends greeting.source.toList ∧ '~' ∉ greeting.source.toList ∧
      '~' ∉ parting.source.toList ∧ named.FunctionFree ∧
      ∃ ab, ofSource (greeting.source ++ parting.source) = .ok ab ∧
        ∀ {σ : Type} (host : Host σ) (partial? : Dict Target → String → Option Template)
          (depth : Nat) (world : World σ),
          (ab.render host partial? depth named ⟨[]⟩).result world =
            some (.ok "Hi &lt;Ann&gt;, bye.") := by
  have hends : Text.Ends greeting.source.toList := by
    intro c hc
    cases hc
    decide
  have hs : '~' ∉ greeting.source.toList := by decide
  have ht : '~' ∉ parting.source.toList := by decide
  have hfree : named.FunctionFree := .object (.cons (.mk "name" (.string _)) .nil)
  obtain ⟨ab, hab, hrender⟩ := ofSource_append ofSource_greeting ofSource_parting hends hs ht
  refine ⟨ofSource_greeting, ofSource_parting, hends, hs, ht, hfree, ab, hab,
    fun host partial? depth world => ?_⟩
  obtain ⟨first, second, hresult⟩ := (hrender partial? named ⟨[]⟩).2 hfree (List.forall_mem_nil _)
  obtain ⟨hfirst, hsecond, hboth⟩ := hresult host depth world
  rw [render_greeting] at hfirst
  rw [render_parting] at hsecond
  cases hfirst
  cases hsecond
  exact hboth

end Template
end Stencil
