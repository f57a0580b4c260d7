import Stencil.Proofs.Shelves
import Stencil.Proofs.Variants

set_option autoImplicit false

/-!
# Layouts of sources

A source that compiles is runs of text with tags between them. Another one compiles to the same items
and asks for the same partials if its tags are variants of those, one by one, and the runs between
them are the same once they are trimmed.
-/
namespace Stencil

namespace Outline

/-- The partials that an outline asks for, in turn, and its items, unless it fails. -/
def script : Outline → Option (List String × List Item)
  | finished items => some ([], items)
  | failed _ => none
  | asking name _ next => next.script.map fun found => (name :: found.1, found.2)

section
variable {σ : Type} {source : String} {s s' : σ} {links : Dict Target} {t : Template}
  {ask : String → StateM σ (Except TemplateError (Option Target))} {outline outline' : Outline}

/-- What compiles has asked for its partials and come to its items, and what does the same compiles
to the same. -/
theorem link_script (h : outline.link source ask links s = (.ok t, s')) :
    ∃ found, outline.script = some found ∧ ∀ (outline' : Outline) (source' : String),
      outline'.script = some found →
        outline'.link source' ask links s = (.ok ⟨source', t.items, t.links⟩, s') := by
  induction outline generalizing s links with
  | finished items =>
    cases h
    refine ⟨([], items), rfl, fun outline' source' hscript => ?_⟩
    cases outline' with
    | finished items' =>
      cases hscript
      rfl
    | failed f => cases hscript
    | asking name left next =>
      obtain ⟨found, -, he⟩ := Option.map_eq_some_iff.1 hscript
      cases he
  | failed f => cases h
  | asking name left next ih =>
    match hr : ask name s with
    | (.error e, s₁) =>
      rw [link_error hr] at h
      cases h
    | (.ok none, s₁) =>
      rw [link_missing hr] at h
      cases h
    | (.ok (some target), s₁) =>
      rw [link_some hr] at h
      obtain ⟨found, hfound, hsame⟩ := ih h
      refine ⟨(name :: found.1, found.2), congrArg (Option.map _) hfound, ?_⟩
      intro outline' source' hscript
      cases outline' with
      | finished items' => cases hscript
      | failed f => cases hscript
      | asking name' left' next' =>
        obtain ⟨found', hfound', he⟩ := Option.map_eq_some_iff.1 hscript
        obtain ⟨hnames, hitems⟩ := Prod.mk.inj he
        obtain ⟨rfl, hrest⟩ := List.cons.inj hnames
        obtain rfl : found' = found := Prod.ext hrest hitems
        rw [link_some hr]
        exact hsame next' source' hfound'

end

variable {d : Dialect} {draft pushed : Draft} {trims : Bool} {mark : Nat} {cs text inside : List Char}
  {found : List String × List Item}

theorem script_onward {n : Nat} {x : Except Failure (TagRead n)}
    (h : (onward d pushed mark x).script = some found) :
    ∃ tag after rest draft' mark', TagRead.Gives x tag after rest ∧ pushed.add tag = .ok draft' ∧
      (read d draft' after mark' rest).script = some found := by
  cases x with
  | error f => cases h
  | ok r =>
    unfold onward at h
    dsimp only at h
    cases hadd : pushed.add r.tag with
    | error f =>
      rw [hadd] at h
      cases h
    | ok draft' =>
      rw [hadd] at h
      exact ⟨r.tag, r.trims, r.rest, draft', _, ⟨r, rfl, rfl, rfl, rfl⟩, hadd, h⟩

theorem onward_script {n : Nat} {x : Except Failure (TagRead n)} {tag : Option Tag} {after : Bool}
    {rest : List Char} {draft' : Draft} (h : TagRead.Gives x tag after rest)
    (hadd : pushed.add tag = .ok draft')
    (hrest : ∀ mark, (read d draft' after mark rest).script = some found) :
    (onward d pushed mark x).script = some found := by
  obtain ⟨r, rfl, rfl, rfl, rfl⟩ := h
  unfold onward
  dsimp only
  rw [hadd]
  exact hrest _

/-- What is read of a source with a tag in it, is read of that tag and of what is behind it. -/
theorem script_tag (hplain : Text.plain cs = (text, some inside))
    (h : (read d draft trims mark cs).script = some found) :
    ∃ pushed names tag after rest draft' mark' behind,
      draft.pushText (Text.trimIf trims (Opener.read inside).trims text) = pushed ∧
        ReadsTag d pushed.place (inside.length + 2) (Opener.read inside) names tag after rest ∧
        pushed.add tag = .ok draft' ∧ (read d draft' after mark' rest).script = some behind ∧
          found = (names ++ behind.1, behind.2) := by
  rw [read_at_tag hplain] at h
  by_cases hsigil : (Opener.read inside).sigil = .inclusion
  · unfold atTag at h
    simp only [hsigil] at h
    cases hasked : Asked.read d (Opener.read inside).rest with
    | error f =>
      rw [hasked] at h
      cases h
    | ok asked =>
      rw [hasked] at h
      obtain ⟨behind, hbehind, rfl⟩ := Option.map_eq_some_iff.1 h
      obtain ⟨tag, after, rest, draft', mark', hgives, hadd, hrest⟩ := script_onward hbehind
      exact ⟨_, [asked.name], tag, after, rest, draft', mark', behind, rfl,
        .inclusion hsigil ⟨asked, hasked, beq_self_eq_true _, hgives⟩, hadd, hrest, rfl⟩
  · rw [atTag_ordinary hsigil] at h
    obtain ⟨tag, after, rest, draft', mark', hgives, hadd, hrest⟩ := script_onward h
    exact ⟨_, [], tag, after, rest, draft', mark', found, rfl, .ordinary hsigil hgives, hadd, hrest,
      rfl⟩

theorem tag_script {names : List String} {tag : Option Tag} {after : Bool} {rest : List Char}
    {draft' : Draft} {behind : List String × List Item}
    (hplain : Text.plain cs = (text, some inside))
    (hpushed : draft.pushText (Text.trimIf trims (Opener.read inside).trims text) = pushed)
    (htag : ReadsTag d pushed.place (inside.length + 2) (Opener.read inside) names tag after rest)
    (hadd : pushed.add tag = .ok draft')
    (hrest : ∀ mark, (read d draft' after mark rest).script = some behind) :
    (read d draft trims mark cs).script = some (names ++ behind.1, behind.2) := by
  subst hpushed
  rw [read_at_tag hplain]
  cases htag with
  | ordinary hsigil h =>
    rw [atTag_ordinary hsigil]
    exact onward_script h hadd hrest
  | inclusion hsigil h =>
    obtain ⟨asked, hasked, hname, hgives⟩ := h
    obtain rfl := eq_of_beq hname
    unfold atTag
    simp only [hsigil, hasked]
    exact congrArg (Option.map _) (onward_script hgives hadd hrest)

end Outline

inductive Layout
  | last (run : List Char)
  | tag (run : List Char) (tag : TagText) (behind : Layout)

namespace Layout

def text : Layout → List Char
  | last run => run
  | tag run t behind => run ++ '\x7b' :: '\x7b' :: (t.text ++ behind.text)

def source (l : Layout) : String := String.ofList l.text

/-- No tag opens in a run, and each tag is read as it is written. -/
inductive Valid : Layout → Prop
  | last {run : List Char} (hrun : (Text.plain run).2 = none) : Valid (.last run)
  | tag {run : List Char} {t : TagText} {behind : Layout}
    (hrun : (Text.plain (run ++ ['\x7b', '\x7b'])).2 = some []) (ht : t.Valid) (h : behind.Valid) :
    Valid (.tag run t behind)

/-- Tag by tag the second is a variant of the first, and the runs are the same once they are trimmed.
The flags say whether the text before the run ended with a tilde. -/
inductive Counterpart (d : Dialect) : Bool → Bool → Layout → Layout → Prop
  | last {trims trims' : Bool} {run run' text text' : List Char} (hrun : Text.plain run = (text, none))
    (hrun' : Text.plain run' = (text', none))
    (hsame : Text.trimIf trims' false text' = Text.trimIf trims false text) :
    Counterpart d trims trims' (.last run) (.last run')
  | tag {trims trims' : Bool} {run run' text text' : List Char} {t t' : TagText}
    {behind behind' : Layout} (hrun : Text.plain (run ++ ['\x7b', '\x7b']) = (text, some []))
    (hrun' : Text.plain (run' ++ ['\x7b', '\x7b']) = (text', some []))
    (hsame : Text.trimIf trims' t'.trimsBefore text' = Text.trimIf trims t.trimsBefore text)
    (ht : t.Valid) (hvariant : TagText.Variant d t t')
    (hbehind : Counterpart d t.trimsAfter t'.trimsAfter behind behind') :
    Counterpart d trims trims' (.tag run t behind) (.tag run' t' behind')

theorem plain_text {run text : List Char} (hrun : Text.plain (run ++ ['\x7b', '\x7b']) = (text, some []))
    (t : TagText) (behind : Layout) :
    Text.plain (tag run t behind).text = (text, some (t.text ++ behind.text)) := by
  have hmore := Text.plain_append_some hrun (t.text ++ behind.text)
  rw [List.append_assoc] at hmore
  exact hmore

variable {d : Dialect} {trims trims' : Bool} {l l' : Layout}

theorem Counterpart.script (h : Counterpart d trims trims' l l') {draft : Draft} {mark : Nat}
    {found : List String × List Item}
    (hfound : (Outline.read d draft trims mark l.text).script = some found) (mark' : Nat) :
    (Outline.read d draft trims' mark' l'.text).script = some found := by
  induction h generalizing draft mark mark' found with
  | last hrun hrun' hsame =>
    rw [text, read_none hrun] at hfound
    rw [text, read_none hrun', hsame]
    generalize Draft.pushText _ draft = pushed at hfound ⊢
    obtain ⟨items, blocks⟩ := pushed
    cases blocks with
    | nil => exact hfound
    | cons b blocks => cases hfound
  | @tag trims trims' run run' text text' t t' behind behind' hrun hrun' hsame ht hvariant hbehind ih =>
    have hopener := ht.variant.read_text (d := d) ht behind.text
    have hopener' := hvariant.read_text ht behind'.text
    obtain ⟨pushed, names, tag, after, rest, draft', mark₁, found', hpushed, htag, hadd, hrest, rfl⟩ :=
      Outline.script_tag (plain_text hrun t behind) hfound
    rw [hopener] at htag hpushed
    obtain ⟨rfl, rfl, tag', hmoved, htag'⟩ :=
      hvariant.reads ht htag ((t'.text ++ behind'.text).length + 2) behind'.text
    rw [← hopener'] at htag'
    refine Outline.tag_script (plain_text hrun' t' behind') ?_ htag' (Draft.add_moved hmoved hadd)
      fun mark => ih hrest mark
    rw [hopener', hsame]
    exact hpushed

end Layout

theorem Text.exists_run {cs text inside : List Char} (h : plain cs = (text, some inside)) :
    ∃ run, cs = run ++ '\x7b' :: '\x7b' :: inside ∧
      plain (run ++ ['\x7b', '\x7b']) = (text, some []) := by
  fun_induction plain cs generalizing text with
  | case1 => cases h
  | case2 c cs ih =>
    obtain ⟨behind, hbehind, rfl⟩ := inFront_eq h
    obtain ⟨run, rfl, hrun⟩ := ih hbehind
    refine ⟨'\\' :: c :: run, rfl, ?_⟩
    rw [List.cons_append, List.cons_append, plain, hrun]
    rfl
  | case3 cs =>
    cases h
    exact ⟨[], rfl, rfl⟩
  | case4 c cs hslash hbrace ih =>
    obtain ⟨behind, hbehind, rfl⟩ := inFront_eq h
    obtain ⟨run, rfl, hrun⟩ := ih hbehind
    refine ⟨c :: run, rfl, ?_⟩
    rw [List.cons_append, plain, hrun]
    · rfl
    · cases run with
      | nil => exact fun e es hc _ => hslash '\x7b' _ hc rfl
      | cons x run => exact fun e es hc _ => hslash x _ hc rfl
    · cases run with
      | nil => exact fun es hc _ => hbrace _ hc rfl
      | cons x run =>
        intro es hc he
        exact hbrace _ hc (congrArg (· :: (run ++ '\x7b' :: '\x7b' :: inside)) (List.cons.inj he).1)

namespace Layout
variable {d : Dialect} {source : String}

theorem exists_of_script {draft : Draft} {trims : Bool} {mark : Nat} {cs : List Char}
    {found : List String × List Item}
    (h : (Outline.read d draft trims mark cs).script = some found) :
    ∃ l : Layout, l.Valid ∧ l.text = cs := by
  induction hn : cs.length using Nat.strongRecOn generalizing draft trims mark cs found with
  | ind n ih =>
    subst hn
    cases hplain : Text.plain cs with
    | mk text tag =>
      cases tag with
      | none => exact ⟨.last cs, .last (by rw [hplain]), rfl⟩
      | some inside =>
        obtain ⟨run, rfl, hrun⟩ := Text.exists_run hplain
        obtain ⟨pushed, names, tag, after, rest, draft', mark', behind, -, htag, -, hrest, -⟩ :=
          Outline.script_tag hplain h
        obtain ⟨t, ht, rfl, -⟩ := TagText.exists_of_reads htag
        obtain ⟨l, hl, rfl⟩ := ih rest.length (by simp only [List.length_append, List.length_cons]; omega)
          hrest rfl
        exact ⟨.tag run t l, .tag (by rw [hrun]) ht hl, rfl⟩

variable {waiting : Dict String} {shelf shelf' : Shelf} {t : Template}

theorem exists_of_compile (h : (compile d waiting source).run shelf = (.ok t, shelf')) :
    ∃ l : Layout, l.Valid ∧ l.source = source := by
  obtain ⟨found, hfound, -⟩ := Outline.link_script h
  obtain ⟨l, hl, htext⟩ := exists_of_script hfound
  exact ⟨l, hl, by rw [Layout.source, htext, String.ofList_toList]⟩

/-- The counterpart of a source that compiles does the same to what it includes and comes to the same
items. -/
theorem Counterpart.compile {l l' : Layout} (h : Counterpart d false false l l')
    (hcompile : (compile d waiting l.source).run shelf = (.ok t, shelf')) :
    (Stencil.compile d waiting l'.source).run shelf =
      (.ok ⟨l'.source, t.items, t.links⟩, shelf') := by
  obtain ⟨found, hfound, hsame⟩ := Outline.link_script hcompile
  refine hsame _ l'.source ?_
  unfold Outline.ofSource source at hfound ⊢
  rw [String.toList_ofList] at hfound ⊢
  exact h.script hfound 0

end Layout
end Stencil
