import Stencil.Compile
import Stencil.Proofs.References

set_option autoImplicit false

/-!
# What a source asks for

A source includes no partial that it has not asked for, and the name of each can stand in brackets.
-/
namespace Stencil

mutual

def Item.includes : Item → List String
  | .text _ => []
  | .escaped _ => []
  | .unescaped _ => []
  | .block ⟨_, body, inverse, _⟩ => includes body ++ includes inverse
  | .inclusion i => [i.name]

def includes : List Item → List String
  | [] => []
  | item :: items => item.includes ++ includes items

end

theorem includes_append (xs ys : List Item) : includes (xs ++ ys) = includes xs ++ includes ys := by
  induction xs with
  | nil => rfl
  | cons x xs ih => rw [List.cons_append, includes, ih, includes, List.append_assoc]

theorem includes_singleton (item : Item) : includes [item] = item.includes := List.append_nil _

def OpenBlock.includes (b : OpenBlock) : List String :=
  Stencil.includes b.body ++ Stencil.includes b.inverse

def Draft.includes (d : Draft) : List String :=
  Stencil.includes d.items ++ d.blocks.flatMap OpenBlock.includes

namespace OpenBlock

theorem includes_toItem (b : OpenBlock) : b.toItem.includes = b.includes := by
  rw [toItem, Item.includes, includes]

theorem mem_includes_push {item : Item} {b : OpenBlock} {name : String} :
    name ∈ (b.push item).includes ↔ name ∈ item.includes ∨ name ∈ b.includes := by
  obtain ⟨call, chained, branch, body, inverse⟩ := b
  cases branch <;>
    simp only [push, includes, includes_append, includes_singleton, List.mem_append] <;> grind

theorem mem_includes_closeNamed {close name : String} {b : OpenBlock}
    {outer blocks : List OpenBlock} {item : Item} (h : b.closeNamed close outer = .ok (item, blocks)) :
    name ∈ item.includes ++ blocks.flatMap includes ↔ name ∈ (b :: outer).flatMap includes := by
  unfold closeNamed at h
  split at h <;> cases h
  rw [includes_toItem, List.flatMap_cons]

theorem mem_includes_close {close name : String} {b : OpenBlock} {outer blocks : List OpenBlock}
    {item : Item} (h : b.close close outer = .ok (item, blocks)) :
    name ∈ item.includes ++ blocks.flatMap includes ↔ name ∈ (b :: outer).flatMap includes := by
  induction outer generalizing b with
  | nil =>
    unfold OpenBlock.close at h
    split at h
    · cases h
    · exact mem_includes_closeNamed h
  | cons next outer ih =>
    unfold OpenBlock.close at h
    split at h
    · rw [ih h, List.flatMap_cons, List.mem_append, mem_includes_push, includes_toItem,
        List.flatMap_cons, List.flatMap_cons, List.mem_append, List.mem_append]
      exact or_assoc
    · exact mem_includes_closeNamed h

end OpenBlock

namespace Draft
variable {d d' : Draft} {name : String}

theorem mem_includes_push {item : Item} :
    name ∈ (d.push item).includes ↔ name ∈ item.includes ∨ name ∈ d.includes := by
  obtain ⟨items, blocks⟩ := d
  cases blocks with
  | nil =>
    simp only [push, includes, includes_append, includes_singleton, List.mem_append]
    grind
  | cons b outer =>
    simp only [push, includes, List.flatMap_cons, List.mem_append, OpenBlock.mem_includes_push]
    grind

theorem mem_includes_pushText (text : List Char) :
    name ∈ (d.pushText text).includes ↔ name ∈ d.includes := by
  unfold pushText
  split
  · rfl
  · exact mem_includes_push.trans (or_iff_right List.not_mem_nil)

theorem includes_openBlock (call : Call Expr) (chained : Bool) :
    (d.openBlock call chained).includes = d.includes := rfl

theorem includes_toInverse : d.toInverse.includes = d.includes := by
  obtain ⟨items, blocks⟩ := d
  cases blocks <;> rfl

theorem mem_includes_addTag {tag : Tag} (h : d.addTag tag = .ok d') :
    name ∈ d'.includes ↔ name ∈ d.includes ∨ ∃ i, tag = .inclusion i ∧ i.name = name := by
  have hnone (htag : ∀ i, tag ≠ .inclusion i) :
      (name ∈ d.includes ∨ ∃ i, tag = .inclusion i ∧ i.name = name) ↔ name ∈ d.includes :=
    or_iff_left fun ⟨i, hi, _⟩ => htag i hi
  cases tag with
  | value escape e =>
    rw [hnone nofun]
    cases escape <;> cases h <;> exact mem_includes_push.trans (or_iff_right List.not_mem_nil)
  | opening call => cases h; rw [hnone nofun, includes_openBlock]
  | otherwise => cases h; rw [hnone nofun, includes_toInverse]
  | otherwiseOpening call => cases h; rw [hnone nofun, includes_openBlock, includes_toInverse]
  | closing close left =>
    rw [hnone nofun]
    obtain ⟨items, blocks⟩ := d
    cases blocks with
    | nil => cases h
    | cons b outer =>
      simp only [addTag] at h
      split at h
      · next item blocks hclose =>
        cases h
        have hparts := @OpenBlock.mem_includes_close _ name _ _ _ _ hclose
        rw [List.mem_append] at hparts
        rw [mem_includes_push, includes, includes, List.mem_append, List.mem_append, ← hparts]
        exact or_left_comm
      · cases h
  | raw call body =>
    cases h
    rw [hnone nofun]
    refine mem_includes_push.trans (or_iff_right ?_)
    cases body <;> simp [Item.includes, Stencil.includes]
  | inclusion i =>
    cases h
    rw [mem_includes_push, Item.includes, List.mem_singleton, or_comm]
    refine or_congr_right ⟨fun h => ⟨i, rfl, h.symm⟩, ?_⟩
    rintro ⟨_, ⟨⟩, hi⟩
    exact hi.symm

theorem mem_includes_add {tag : Option Tag} (h : d.add tag = .ok d') :
    name ∈ d'.includes ↔ name ∈ d.includes ∨ ∃ i, tag = some (.inclusion i) ∧ i.name = name := by
  cases tag with
  | none =>
    cases h
    exact (or_iff_left nofun).symm
  | some tag => simp only [Option.some.injEq, mem_includes_addTag h]

end Draft

def Tag.IsInclusion : Tag → Prop
  | .inclusion _ => True
  | _ => False

namespace Cursor
variable {dialect : Dialect} {place : Option Branch} {c : Cursor}

theorem otherwiseTag_always :
    Always (fun a => ¬ a.result.IsInclusion) (c.otherwiseTag place) := by
  unfold otherwiseTag
  split
  · exact .error
  · exact .error
  · exact .ok id

theorem otherwiseOpeningTag_always :
    Always (fun a => ¬ a.result.IsInclusion) (c.otherwiseOpeningTag dialect place) := by
  unfold otherwiseOpeningTag
  split
  · exact .error
  · exact .bind .trivial fun _ _ => .ok id

theorem valueTag_always (escape : Bool) :
    Always (fun a => ¬ a.result.IsInclusion) (c.valueTag dialect escape) :=
  .map .trivial fun _ _ => id

theorem escapedTag_always :
    Always (fun a => ¬ a.result.IsInclusion) (c.escapedTag dialect place) := by
  unfold escapedTag
  refine .bind .trivial fun word _ => ?_
  cases word with
  | none => exact valueTag_always true
  | some past =>
    dsimp only
    split
    · exact .bind otherwiseTag_always fun _ h => .ok h
    · refine .bind .trivial fun space _ => ?_
      split
      · exact .bind otherwiseOpeningTag_always fun _ h => .ok h
      · exact .bind otherwiseTag_always fun _ h => .ok h

theorem negatedTag_always :
    Always (fun a => ¬ a.result.IsInclusion) (c.negatedTag dialect place) := by
  unfold negatedTag
  split
  · exact otherwiseTag_always
  · refine .bind .trivial fun r _ => ?_
    obtain ⟨r, d, hd⟩ := r
    cases r with
    | none => exact .error
    | some r => exact .ok id

theorem tag_always (sigil : Sigil) :
    Always (fun a => ¬ a.result.IsInclusion) (c.tag dialect place sigil) := by
  cases sigil with
  | unescaped | triple => exact valueTag_always false
  | opening => exact .map .trivial fun _ _ => id
  | negated => exact negatedTag_always
  | closing => exact .bind .trivial fun _ _ => .ok id
  | _ => exact escapedTag_always

end Cursor

theorem TagRead.read_always (dialect : Dialect) (place : Option Branch) (left : Nat)
    (opener : Opener) :
    Always (fun r => ∀ tag, r.tag = some tag → ¬ tag.IsInclusion)
      (TagRead.read dialect place left opener) := by
  have hcomment (terminator : List Char) :
      Always (fun r => ∀ tag, r.tag = some tag → ¬ tag.IsInclusion)
        (comment left terminator opener.rest) := by
    unfold comment
    split
    · exact .error
    · refine .ok fun tag h => ?_
      cases h
  unfold TagRead.read
  split
  · unfold raw
    refine .bind .trivial fun c _ => ?_
    obtain ⟨c, hc⟩ := c
    refine .bind .trivial fun call _ => ?_
    obtain ⟨call, d, hd⟩ := call
    refine .bind .trivial fun trims _ => ?_
    obtain ⟨trims, e, he⟩ := trims
    dsimp only
    split
    · exact .error
    · refine .ok fun tag h => ?_
      cases h
      exact id
  · exact hcomment _
  · exact hcomment _
  · refine .bind .trivial fun c _ => ?_
    obtain ⟨c, hc⟩ := c
    refine .bind (Cursor.tag_always _) fun tag htag => ?_
    refine .bind (p := fun a => a.result.1 = tag.result) ?_ fun a ha => ?_
    · exact .bind .trivial fun _ _ => .ok rfl
    · refine .ok fun t ht => ?_
      cases ht
      rwa [ha]

namespace Token

theorem not_mem_of_run? {cs text rest : List Char} {p : Char → Bool} {c : Char}
    (h : run? p cs = some (text, rest)) (hc : p c = false) : c ∉ text := by
  intro hmem
  have htrue := forall_of_run? h c hmem
  rw [hc] at htrue
  cases htrue

theorem name_of_run {text : List Char} (h : '[' ∉ text) (kind : TokenKind) :
    (Token.mk kind text).name = String.ofList text := by
  unfold name
  split
  · next inner heq =>
    dsimp only at heq
    rw [heq] at h
    exact absurd List.mem_cons_self h
  · rfl

theorem bracketed?_eq_some {cs text rest : List Char} (h : bracketed? cs = some (text, rest)) :
    ∃ inner, text = '[' :: inner ++ [']'] ∧ inner ≠ [] ∧ ']' ∉ inner := by
  unfold bracketed? at h
  split at h
  · split at h
    · next hrun =>
      cases h
      exact ⟨_, rfl, (append_of_run? hrun).2, not_mem_of_run? hrun (by simp)⟩
    · cases h
  · cases h

theorem inBrackets_of_read {cs rest : List Char} {t : Token} (h : read cs = .ok (t, rest))
    (hkind : t.kind = .ident) : InBrackets t.name := by
  unfold read at h
  split at h
  · next found hfound =>
    cases h
    unfold composite? at hfound
    rcases Option.or_eq_some_iff.1 hfound with hconst | ⟨-, hrest⟩
    · obtain ⟨split, -, he⟩ := Option.map_eq_some_iff.1 hconst
      cases he
      cases hkind
    · rcases Option.or_eq_some_iff.1 hrest with hname | ⟨-, hspace⟩
      · obtain ⟨kind, text⟩ := t
        have hsplit := of_tokenOf hname
        dsimp only at hsplit
        rcases Option.or_eq_some_iff.1 hsplit with hrun | ⟨-, hbracket⟩
        · rw [name_of_run (not_mem_of_run? hrun (by decide))]
          unfold InBrackets
          rw [String.toList_ofList]
          exact ⟨(append_of_run? hrun).2, not_mem_of_run? hrun (by decide)⟩
        · obtain ⟨inner, rfl, hinner⟩ := bracketed?_eq_some hbracket
          change InBrackets (String.ofList (inner ++ [']']).dropLast)
          unfold InBrackets
          rw [List.dropLast_concat, String.toList_ofList]
          exact hinner
      · obtain ⟨split, -, he⟩ := Option.map_eq_some_iff.1 hspace
        cases he
        cases hkind
  · split at h
    · cases h
    · split at h
      · next hsymbol =>
        cases h
        dsimp only at hkind
        rw [hkind] at hsymbol
        exact absurd hsymbol symbol?_ne_ident
      · cases h

theorem word_ne_separator (text : List Char) : word text ≠ .dot ∧ word text ≠ .slash := by
  unfold word
  split
  · exact ⟨nofun, nofun⟩
  · split
    · exact ⟨nofun, nofun⟩
    · split
      · exact ⟨nofun, nofun⟩
      · split <;> exact ⟨nofun, nofun⟩

theorem text_of_separator {cs rest : List Char} {t : Token} (h : read cs = .ok (t, rest))
    (hkind : t.kind = .dot ∨ t.kind = .slash) : ']' ∉ t.text := by
  unfold read at h
  split at h
  · next found hfound =>
    cases h
    unfold composite? at hfound
    rcases Option.or_eq_some_iff.1 hfound with hconst | ⟨-, hrest⟩
    · obtain ⟨split, -, he⟩ := Option.map_eq_some_iff.1 hconst
      cases he
      rcases hkind with hkind | hkind <;> cases hkind
    · rcases Option.or_eq_some_iff.1 hrest with hname | ⟨-, hspace⟩
      · obtain ⟨split, -, he⟩ := Option.map_eq_some_iff.1 hname
        cases he
        rcases hkind with hkind | hkind
        · exact absurd hkind (word_ne_separator _).1
        · exact absurd hkind (word_ne_separator _).2
      · obtain ⟨split, -, he⟩ := Option.map_eq_some_iff.1 hspace
        cases he
        rcases hkind with hkind | hkind <;> cases hkind
  · split at h
    · cases h
    · split at h
      · next c _ _ hsymbol =>
        cases h
        intro hmem
        obtain rfl := List.mem_singleton.1 hmem
        cases hsymbol
      · cases h

end Token

namespace Cursor
variable {c : Cursor} {cs : List Char}

def IsStep (step : String × String) : Prop := ']' ∉ step.1.toList ∧ InBrackets step.2

theorem start_always (cs : List Char) : Always (fun p => ∃ cs, p.1.At cs) (start cs) :=
  fun _ hp => ⟨cs, at_of_start hp⟩

theorem steps_always (hc : c.At cs) {separator : String} (hsep : ']' ∉ separator.toList) :
    Always (fun a => a.result ≠ [] ∧ ∀ step ∈ a.result, IsStep step) (c.steps separator) := by
  induction hn : c.rest.length using Nat.strongRecOn generalizing c cs separator with
  | ind n ih =>
    subst hn
    rw [steps]
    split
    · next hkind =>
      have hstep : IsStep (separator, c.token.name) := ⟨hsep, Token.inBrackets_of_read hc hkind⟩
      refine .bind (start_always c.rest) ?_
      rintro ⟨d, hd⟩ ⟨ds, hat⟩
      dsimp only at hat ⊢
      split
      · next hseparator =>
        have hfound : ']' ∉ d.found.toList := by
          unfold found
          rw [String.toList_ofList]
          exact Token.text_of_separator hat hseparator
        refine .bind (start_always d.rest) ?_
        rintro ⟨e, he⟩ ⟨es, hat'⟩
        refine .bind (ih e.rest.length (Nat.lt_trans he hd) hat' hfound rfl) ?_
        rintro ⟨later, f, hf⟩ ⟨-, hlater⟩
        exact .ok ⟨List.cons_ne_nil _ _, List.forall_mem_cons.2 ⟨hstep, hlater⟩⟩
      · exact .ok ⟨List.cons_ne_nil _ _, List.forall_mem_singleton.2 hstep⟩
    · exact .error

theorem inBrackets_join {path : List (String × String)} (hne : path ≠ [])
    (h : ∀ step ∈ path, IsStep step) :
    InBrackets (String.join (path.map fun step => step.1 ++ step.2)) := by
  unfold InBrackets
  rw [String.toList_join]
  constructor
  · obtain ⟨step, later, rfl⟩ := List.exists_cons_of_ne_nil hne
    intro hnil
    have hfirst : (step.1 ++ step.2).toList = [] := (List.append_eq_nil_iff.1 hnil).1
    rw [String.toList_append] at hfirst
    exact (h step List.mem_cons_self).2.1 (List.append_eq_nil_iff.1 hfirst).2
  · intro hmem
    obtain ⟨text, htext, hin⟩ := List.mem_flatMap.1 hmem
    obtain ⟨step, hstep, rfl⟩ := List.mem_map.1 htext
    rw [String.toList_append, List.mem_append] at hin
    rcases hin with hin | hin
    · exact (h step hstep).1 hin
    · exact (h step hstep).2.2 hin

theorem inclusionName_always (hc : c.At cs) :
    Always (fun a => InBrackets a.result) c.inclusionName := by
  refine .map (p := fun a => a.result ≠ [] ∧ ∀ step ∈ a.result, IsStep step) ?_
    fun a h => inBrackets_join h.1 h.2
  unfold names names?
  split
  · refine .bind (p := fun a => ∃ path, a.result = some path ∧ path ≠ [] ∧
      ∀ step ∈ path, IsStep step) ?_ ?_
    · exact .bind (steps_always hc List.not_mem_nil) fun a h => .ok ⟨_, rfl, h⟩
    · rintro ⟨_, d, hd⟩ ⟨path, rfl, h⟩
      exact .ok h
  · exact .error

theorem skip_always (hc : c.At cs) (kind : TokenKind) :
    Always (fun a => ∃ cs, a.cursor.At cs) (c.skip kind) := by
  unfold skip eat
  split
  · refine .bind (p := fun past => ∀ d, past = some d → ∃ cs, d.1.At cs) ?_ ?_
    · exact .map (start_always c.rest) fun d hd e he => by cases he; exact hd
    · intro past hpast
      cases past with
      | none => exact .ok ⟨cs, hc⟩
      | some d => exact .ok (hpast d rfl)
  · exact .ok ⟨cs, hc⟩

theorem enter_always (cs : List Char) : Always (fun p => ∃ cs, p.1.At cs) (enter cs) := by
  refine .bind (start_always cs) ?_
  rintro ⟨c, hc⟩ ⟨cs', hat⟩
  refine .bind (skip_always hat .space) ?_
  rintro ⟨_, d, hd⟩ hat'
  exact .ok hat'

end Cursor

theorem Asked.read_always (dialect : Dialect) (cs : List Char) :
    Always (fun asked => InBrackets asked.name ∧
      Always (fun r => ∃ i, r.tag = some (.inclusion i) ∧ i.name = asked.name) asked.tag)
      (Asked.read dialect cs) := by
  unfold Asked.read
  refine .bind (Cursor.enter_always cs) ?_
  rintro ⟨c, hc⟩ ⟨cs', hat⟩
  refine .bind (Cursor.inclusionName_always hat) ?_
  rintro ⟨name, d, hd⟩ hname
  refine .ok ⟨hname, ?_⟩
  refine .map (p := fun a => ∃ i, a.result.1 = .inclusion i ∧ i.name = name) ?_ ?_
  · refine .bind (p := fun a => ∃ i, a.result = .inclusion i ∧ i.name = name) ?_ ?_
    · exact .bind .trivial fun args _ => .ok ⟨_, rfl, rfl⟩
    · exact fun tag htag => .bind .trivial fun trims _ => .ok htag
  · rintro a ⟨i, hi, hname⟩
    exact ⟨i, congrArg some hi, hname⟩

namespace Outline

def asks : Outline → List String
  | finished _ => []
  | failed _ => []
  | asking name _ next => name :: next.asks

def ending : Outline → Except Failure (List Item)
  | finished items => .ok items
  | failed f => .error f
  | asking _ _ next => next.ending

/-- An outline asks for names that can stand in brackets, and includes the names that were known
and those that it asks for. -/
structure Fair (known : List String) (o : Outline) : Prop where
  asks : ∀ name ∈ o.asks, InBrackets name
  includes : ∀ items, o.ending = .ok items →
    ∀ name, name ∈ includes items ↔ name ∈ known ∨ name ∈ o.asks

variable {known : List String}

theorem fair_failed (f : Failure) : Fair known (failed f) := ⟨nofun, nofun⟩

theorem fair_asking {name : String} {left : Nat} {next : Outline} (hname : InBrackets name)
    (h : Fair (name :: known) next) : Fair known (asking name left next) := by
  refine ⟨List.forall_mem_cons.2 ⟨hname, h.asks⟩, fun items hitems other => ?_⟩
  rw [h.includes items hitems other, asks, List.mem_cons, List.mem_cons]
  exact or_assoc.trans or_left_comm

theorem fair_finish (d : Draft) (mark : Nat) (h : ∀ name, name ∈ d.includes ↔ name ∈ known) :
    Fair known (ofExcept (d.finish mark)) := by
  obtain ⟨items, blocks⟩ := d
  cases blocks with
  | nil =>
    refine ⟨nofun, fun items' hitems name => ?_⟩
    cases hitems
    rw [← h, Draft.includes, List.flatMap_nil, List.append_nil]
    exact (or_iff_left List.not_mem_nil).symm
  | cons b outer => exact fair_failed _

theorem read_fair (known : List String) (dialect : Dialect) (draft : Draft) (trims : Bool)
    (mark : Nat) (cs : List Char) (h : ∀ name, name ∈ draft.includes ↔ name ∈ known) :
    Fair known (read dialect draft trims mark cs) := by
  induction hn : cs.length using Nat.strongRecOn generalizing draft trims mark cs known with
  | ind n ih =>
    subst hn
    rw [read]
    split
    · exact fair_finish _ mark fun name => (Draft.mem_includes_pushText _).trans (h name)
    · next inside hplain =>
      dsimp only
      have hdraft (name : String) := (Draft.mem_includes_pushText (d := draft)
        (Text.trimIf trims (Opener.read inside).trims (Text.plain cs).1)).trans (h name)
      split
      · split
        · exact fair_failed _
        · next asked hasked =>
          obtain ⟨hname, htag⟩ := Asked.read_always dialect _ asked hasked
          refine fair_asking hname ?_
          split
          · exact fair_failed _
          · next r hr =>
            obtain ⟨i, hi, hsame⟩ := htag r hr
            split
            · exact fair_failed _
            · next draft' hadd =>
              have hlt := Text.length_lt_of_plain hplain
              have hopener := Opener.read_length inside
              have hle := r.le
              refine ih r.rest.length (by omega) _ draft' r.trims _ r.rest ?_ rfl
              intro name
              rw [Draft.mem_includes_add hadd, hdraft, List.mem_cons, or_comm]
              refine or_congr_left ⟨?_, fun heq => ⟨i, hi, hsame.trans heq.symm⟩⟩
              rintro ⟨j, hj, rfl⟩
              cases hi.symm.trans hj
              exact hsame
      · split
        · exact fair_failed _
        · next r hr =>
          have htag := TagRead.read_always dialect _ _ _ r hr
          split
          · exact fair_failed _
          · next draft' hadd =>
            have hlt := Text.length_lt_of_plain hplain
            have hopener := Opener.read_length inside
            have hle := r.le
            refine ih r.rest.length (by omega) _ draft' r.trims _ r.rest ?_ rfl
            intro name
            rw [Draft.mem_includes_add hadd, hdraft]
            have hnone : ¬ ∃ i, r.tag = some (.inclusion i) ∧ i.name = name := by
              rintro ⟨i, hi, -⟩
              exact htag _ hi True.intro
            exact or_iff_left hnone

theorem ofSource_fair (dialect : Dialect) (source : String) : Fair [] (ofSource dialect source) :=
  read_fair [] dialect {} false 0 source.toList fun _ => Iff.rfl

theorem asks_inBrackets (dialect : Dialect) (source : String) :
    ∀ name ∈ (ofSource dialect source).asks, InBrackets name :=
  (ofSource_fair dialect source).asks

/-- A source that comes to items asks for the partials that these include, and for no others. -/
theorem mem_includes_iff {dialect : Dialect} {source : String} {items : List Item}
    (h : (ofSource dialect source).ending = .ok items) {name : String} :
    name ∈ includes items ↔ name ∈ (ofSource dialect source).asks :=
  ((ofSource_fair dialect source).includes items h name).trans (or_iff_right List.not_mem_nil)

theorem includes_subset_asks {dialect : Dialect} {source : String} {items : List Item}
    (h : (ofSource dialect source).ending = .ok items) :
    includes items ⊆ (ofSource dialect source).asks := fun _ => (mem_includes_iff h).1

end Outline

/-- The partials that come up when a source is compiled: those it asks for, and those that their
sources ask for in turn. -/
inductive Dialect.Involves (d : Dialect) (sources : Dict String) (source : String) : String → Prop
  | direct {name : String} (h : name ∈ (Outline.ofSource d source).asks) :
    Involves d sources source name
  | through {name other text : String} (h : Involves d sources source name)
    (hsource : sources.get? name = some text) (hother : other ∈ (Outline.ofSource d text).asks) :
    Involves d sources source other

end Stencil
