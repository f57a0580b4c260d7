import Stencil.Proofs.Layouts
import Stencil.Proofs.Spots

set_option autoImplicit false

/-!
# Templates in front of a tag

A template in front of a tag is read to its end, at the top of a source or in the body of a block.
It asks for the same partials there, and leads to its items and what comes from the tag on.
-/
namespace Stencil

section
variable {d : Dialect} {inside rest : List Char} {names : List String} {tag : Option Tag} {after : Bool}

/-- What stands behind a tag has no part in it. -/
theorem ReadsTag.append {place : Option Branch}
    (h : ReadsTag d place (inside.length + 2) (Opener.read inside) names tag after rest)
    (more : List Char) :
    Opener.read (inside ++ more) = ⟨(Opener.read inside).sigil, (Opener.read inside).trims,
        (Opener.read inside).rest ++ more⟩ ∧ rest <:+ inside ∧
      ∃ tag', Option.Rel Tag.Moved tag tag' ∧ ReadsTag d place ((inside ++ more).length + 2)
        (Opener.read (inside ++ more)) names tag' after (rest ++ more) := by
  have hinside := Opener.rest_suffix inside
  cases h with
  | ordinary hsigil h =>
    obtain ⟨hsuffix, hbrace, -, happend⟩ := TagRead.local_of_gives hsigil h
    have hopener := Opener.read_append hbrace more
    obtain ⟨tag', hmoved, hgives⟩ := happend ((inside ++ more).length + 2) more
    rw [hopener]
    exact ⟨rfl, hsuffix.trans hinside, tag', hmoved, .ordinary hsigil hgives⟩
  | inclusion hsigil h =>
    obtain ⟨hsuffix, hbrace, -, happend⟩ := Asked.local_of_gives h
    rw [Opener.read_append hbrace more]
    exact ⟨rfl, hsuffix.trans hinside, tag, Tag.Moved.rel_refl tag, .inclusion hsigil (happend more)⟩

theorem ReadsTag.anywhere {left : Nat} {opener : Opener}
    (h : ReadsTag d none left opener names tag after rest) (place : Option Branch) :
    ReadsTag d place left opener names tag after rest ∧ ∀ t, tag = some t → ¬ t.IsOtherwise := by
  cases h with
  | ordinary hsigil h =>
    obtain ⟨h, hnone⟩ := TagRead.gives_none hsigil h place
    exact ⟨.ordinary hsigil h, hnone⟩
  | inclusion hsigil h => exact ⟨.inclusion hsigil h, Asked.ne_otherwise h⟩

theorem ReadsTag.inside_source {pushed draft : Draft}
    (h : ReadsTag d pushed.place (inside.length + 2) (Opener.read inside) names tag after rest)
    (hadd : pushed.add tag = .ok draft) (outer : Draft) (more : List Char) :
    ∃ tag', ReadsTag d (outer.inside pushed).place ((inside ++ more).length + 2)
        (Opener.read (inside ++ more)) names tag' after (rest ++ more) ∧
      (outer.inside pushed).add tag' = .ok (outer.inside draft) := by
  obtain ⟨-, -, tag', hmoved, hmore⟩ := h.append more
  have hadd' := Draft.add_moved hmoved hadd
  obtain ⟨items, blocks⟩ := pushed
  cases blocks with
  | nil =>
    obtain ⟨hanywhere, hnone⟩ := hmore.anywhere (outer.inside ⟨items, []⟩).place
    exact ⟨tag', hanywhere, Draft.add_inside hadd' (fun _ => hnone) outer⟩
  | cons b blocks => exact ⟨tag', hmore, Draft.add_inside hadd' nofun outer⟩

end

theorem Draft.pushAll_finished (items xs : List Item) :
    pushAll xs ⟨items, []⟩ = ⟨items ++ xs, []⟩ := by
  induction xs generalizing items with
  | nil => rw [List.append_nil]; rfl
  | cons x xs ih =>
    rw [List.append_cons]
    exact ih _

namespace Outline

/-- Behind the questions for some partials an outline goes on like another. -/
inductive Leads : List String → Outline → Outline → Prop
  | here (next : Outline) : Leads [] next next
  | asking {names : List String} {o next : Outline} (name : String) (left : Nat)
    (h : Leads names o next) : Leads (name :: names) (.asking name left o) next

theorem Leads.trans {names names' : List String} {o o' o'' : Outline} (h : Leads names o o')
    (h' : Leads names' o' o'') : Leads (names ++ names') o o'' := by
  induction h with
  | here next => exact h'
  | asking name left h ih => exact .asking name left (ih h')

section
variable {σ : Type} {source : String} {s s' : σ} {links : Dict Target} {t : Template}
  {ask : String → StateM σ (Except TemplateError (Option Target))} {o o' next : Outline}

/-- What asks for the partials of a template gets the answers that the template got. -/
theorem Leads.link {found : List String × List Item} (h : Leads found.1 o' next)
    (hscript : o.script = some found) (hlink : o.link source ask links s = (.ok t, s'))
    (source' : String) :
    found.2 = t.items ∧ o'.link source' ask links s = next.link source' ask t.links s' := by
  induction o generalizing o' found links s with
  | finished items =>
    cases hscript
    cases hlink
    cases h
    exact ⟨rfl, rfl⟩
  | failed f => cases hscript
  | asking name left o ih =>
    obtain ⟨behind, hbehind, rfl⟩ := Option.map_eq_some_iff.1 hscript
    match hr : ask name s with
    | (.error e, s₁) =>
      rw [link_error hr] at hlink
      cases hlink
    | (.ok none, s₁) =>
      rw [link_missing hr] at hlink
      cases hlink
    | (.ok (some target), s₁) =>
      rw [link_some hr] at hlink
      cases h with
      | asking _ left' h =>
        have hnext := ih h hbehind hlink
        rw [link_some hr]
        exact hnext

end

variable {d : Dialect} {draft : Draft} {trims : Bool} {mark : Nat} {cs text inside : List Char}

theorem onward_leads {n : Nat} {pushed draft' : Draft} {x : Except Failure (TagRead n)}
    {tag : Option Tag} {after : Bool} {rest : List Char} (h : TagRead.Gives x tag after rest)
    (hadd : pushed.add tag = .ok draft') (mark : Nat) :
    ∃ mark', onward d pushed mark x = read d draft' after mark' rest := by
  obtain ⟨r, rfl, rfl, rfl, rfl⟩ := h
  unfold onward
  dsimp only
  rw [hadd]
  exact ⟨_, rfl⟩

theorem leads_tag {names : List String} {tag : Option Tag} {after : Bool} {rest : List Char}
    {draft' : Draft} (hplain : Text.plain cs = (text, some inside))
    (htag : ReadsTag d (draft.pushText (Text.trimIf trims (Opener.read inside).trims text)).place
      (inside.length + 2) (Opener.read inside) names tag after rest)
    (hadd : (draft.pushText (Text.trimIf trims (Opener.read inside).trims text)).add tag =
      .ok draft') (mark : Nat) :
    ∃ mark', Leads names (read d draft trims mark cs) (read d draft' after mark' rest) := by
  rw [read_at_tag hplain]
  cases htag with
  | ordinary hsigil h =>
    rw [atTag_ordinary hsigil]
    obtain ⟨mark', honward⟩ := onward_leads h hadd mark
    exact ⟨mark', honward ▸ .here _⟩
  | inclusion hsigil h =>
    obtain ⟨asked, hasked, hname, hgives⟩ := h
    obtain rfl := eq_of_beq hname
    unfold atTag
    simp only [hsigil, hasked]
    obtain ⟨mark', honward⟩ := onward_leads hgives hadd mark
    exact ⟨mark', .asking _ _ (honward ▸ .here _)⟩

/-- A template is read up to the tag behind it, and comes to its items there. -/
theorem read_leads {found : List String × List Item}
    (h : (read d draft trims mark cs).script = some found) (hends : Text.Ends cs) (outer : Draft)
    (hopener : (Opener.read inside).trims = false) (mark' : Nat) :
    ∃ mark'', Leads found.1
      (read d (outer.inside draft) trims mark' (cs ++ '\x7b' :: '\x7b' :: inside))
      (read d (outer.pushAll found.2) false mark'' ('\x7b' :: '\x7b' :: inside)) := by
  induction hn : cs.length using Nat.strongRecOn generalizing draft trims mark mark' cs found with
  | ind n ih =>
    subst hn
    cases hplain : Text.plain cs with
    | mk text tag =>
      cases tag with
      | none =>
        have hlast : Text.plain (cs ++ '\x7b' :: '\x7b' :: inside) = (text, some inside) := by
          rw [Text.plain_append_none hplain hends]
          exact congrArg (·, some inside) (List.append_nil text)
        rw [read_none hplain] at h
        generalize hpushed : draft.pushText _ = pushed at h
        obtain ⟨items, blocks⟩ := pushed
        cases blocks with
        | cons b blocks => cases h
        | nil =>
          cases h
          refine ⟨mark', ?_⟩
          rw [read_pushed hlast, hopener, Draft.pushText_inside, hpushed]
          exact .here _
      | some first =>
        obtain ⟨pushed, names, tag, after, rest, draft', mark₁, behind, rfl, htag, hadd, hrest, rfl⟩ :=
          script_tag hplain h
        obtain ⟨hread, hsuffix, -⟩ := htag.append ('\x7b' :: '\x7b' :: inside)
        have hbehind := hsuffix.trans (Text.suffix_of_plain hplain)
        have hlt := Nat.lt_of_le_of_lt hsuffix.length_le
          (Text.length_lt_of_plain (congrArg Prod.snd hplain))
        obtain ⟨tag', htag', hadd'⟩ :=
          htag.inside_source hadd outer ('\x7b' :: '\x7b' :: inside)
        rw [← Draft.pushText_inside] at htag' hadd'
        have htrims : (Opener.read (first ++ '\x7b' :: '\x7b' :: inside)).trims =
            (Opener.read first).trims := by rw [hread]
        rw [← htrims] at htag' hadd'
        obtain ⟨mark₂, hleads⟩ :=
          leads_tag (Text.plain_append_some hplain _) htag' hadd' mark'
        obtain ⟨mark₃, hleads'⟩ := ih rest.length hlt hrest (hends.of_suffix hbehind) mark₂ rfl
        exact ⟨mark₃, hleads.trans hleads'⟩

end Outline
end Stencil
