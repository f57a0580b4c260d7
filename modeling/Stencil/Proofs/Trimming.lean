import Stencil.Proofs.Layouts

set_option autoImplicit false

/-!
# Tildes

A tilde trims the run of text, or the body of a raw block, that it is next to, and nothing else: a
source is the same template without its tildes if the white space is cut from these texts by hand.
-/
namespace Stencil

namespace Text
variable {cs : List Char}

theorem mem_of_mem_trimIf {atStart atEnd : Bool} {c : Char} (h : c ∈ trimIf atStart atEnd cs) :
    c ∈ cs := by
  have hstart : ∀ c ∈ (if atStart then trimStart cs else cs), c ∈ cs := by
    intro c hc
    split at hc
    · exact (List.dropWhile_sublist _).mem hc
    · exact hc
  unfold trimIf at h
  dsimp only at h
  split at h
  · refine hstart c (List.mem_reverse.1 ?_)
    exact (List.dropWhile_sublist _).mem (List.mem_reverse.1 h)
  · exact hstart c h

end Text

theorem IsPlain.trimIf {cs : List Char} (h : IsPlain cs) (atStart atEnd : Bool) :
    IsPlain (Text.trimIf atStart atEnd cs) :=
  fun c hc => h c (Text.mem_of_mem_trimIf hc)

theorem plain_run {run : List Char} (h : IsPlain run) :
    Text.plain (run ++ ['\x7b', '\x7b']) = (run, some []) :=
  plain_tag h []

theorem rawBody?_of_plain {name body text : List Char} {trimsBefore trimsAfter : Bool}
    (hbody : IsPlain body) (h : RawEnd.Written name trimsBefore trimsAfter text) :
    rawBody? name (body ++ text) = some (body, ⟨trimsBefore, trimsAfter, []⟩) := by
  induction body with
  | nil => exact h.rawBody?_nil
  | cons c body ih =>
    have hbrace : '\x7b' ≠ c := (hbody c List.mem_cons_self).1.symm
    have hstrip : Text.strip? (List.replicate 4 '\x7b') (c :: (body ++ text)) = none := if_neg hbrace
    have hread : RawEnd.read? name (c :: (body ++ text)) = none := by
      unfold RawEnd.read?
      rw [hstrip]
      rfl
    rw [List.cons_append, rawBody?, hread]
    exact congrArg (Option.map _) (ih fun x hx => hbody x (List.mem_cons_of_mem _ hx))

namespace TagText

/-- The tag without tildes. The body of a raw block is cut where they stood. -/
def byHand : TagText → TagText
  | code sigil _ tokens _ => code sigil false tokens false
  | comment long _ text => comment long false text
  | raw _ tokens after body closing =>
    raw false tokens false (Text.trimIf after closing.trimsBefore body)
      { closing with trimsBefore := false, trimsAfter := false }

def PlainBody : TagText → Prop
  | raw _ _ _ body _ => IsPlain body
  | _ => True

variable {d : Dialect} {t : TagText}

theorem byHand_trimsBefore (t : TagText) : t.byHand.trimsBefore = false := by
  cases t <;> rfl

theorem byHand_trimsAfter (t : TagText) : t.byHand.trimsAfter = false := by
  cases t <;> rfl

theorem Valid.byHand (h : t.Valid) (hbody : t.PlainBody) : Variant d t t.byHand := by
  cases h with
  | code _ _ hlexes => exact .code (.refl hlexes []) nofun
  | comment _ _ => exact .comment_tilde d _ _ _ _
  | @raw before after tokens body closing _ hlexes hclosing _ _ =>
    have hplain : IsPlain (Text.trimIf after closing.trimsBefore body) := IsPlain.trimIf hbody _ _
    have hvalid : RawClosing.Valid { closing with trimsBefore := false, trimsAfter := false } :=
      ⟨hclosing.blanks, hclosing.blanks', hclosing.name⟩
    exact .raw (.refl hlexes []) nofun rfl rfl (rawBody?_of_plain hplain hvalid.written)

end TagText

namespace Layout

/-- The source without tildes. The runs of text are cut where they stood; the flag is for the tag in
front of the first run. -/
def byHand : Bool → Layout → Layout
  | trims, last run => last (Text.trimIf trims false run)
  | trims, tag run t behind =>
    tag (Text.trimIf trims t.trimsBefore run) t.byHand (behind.byHand t.trimsAfter)

def Plain : Layout → Prop
  | last run => IsPlain run
  | tag run t behind => IsPlain run ∧ t.PlainBody ∧ behind.Plain

theorem Valid.byHand {d : Dialect} {l : Layout} (h : l.Valid) (hplain : l.Plain) (trims : Bool) :
    Counterpart d trims false l (l.byHand trims) := by
  induction h generalizing trims with
  | last hrun => exact .last (plain_end hplain) (plain_end (hplain.trimIf trims false)) rfl
  | @tag run t behind hrun ht h ih =>
    obtain ⟨hplain, hbody, hbehind⟩ := hplain
    refine .tag (plain_run hplain) (plain_run (hplain.trimIf trims t.trimsBefore)) ?_ ht
      (ht.byHand hbody) ?_
    · rw [t.byHand_trimsBefore]
      rfl
    · rw [t.byHand_trimsAfter]
      exact ih hbehind t.trimsAfter

end Layout

section
variable {d : Dialect} {waiting : Dict String} {source : String} {shelf shelf' : Shelf} {t : Template}

end

end Stencil
