import Stencil.Proofs.Concatenation
import Stencil.Proofs.Rounds

set_option autoImplicit false

/-!
# Backslashes in plain text

Plain text is read from left to right, a backslash together with the character behind it. Where no
tag opens between such pairs, the template is the text without the backslashes of the pairs, and that
is what the same characters stand for between quotes.
-/
namespace Stencil

namespace Text
variable {cs out : List Char}

/-- What a text comes to in which no two braces are met outside the pairs of a backslash and the
character behind it. A newline makes no pair. -/
inductive Escaped : List Char → List Char → Prop
  | nil : Escaped [] []
  | pair {c : Char} {cs out : List Char} (hc : c ≠ '\n') (h : Escaped cs out) :
    Escaped ('\\' :: c :: cs) (c :: out)
  | char {c : Char} {cs out : List Char} (hslash : c = '\\' → ∀ e ∈ cs.head?, e = '\n')
    (hbrace : c = '\x7b' → cs.head? ≠ some '\x7b') (h : Escaped cs out) :
    Escaped (c :: cs) (c :: out)

theorem plain_newline (cs : List Char) :
    plain ('\\' :: '\n' :: cs) = inFront ['\\'] (plain ('\n' :: cs)) := by
  rw [plain, if_pos rfl, plain_cons (by decide)]
  rfl

theorem plain_escaped (h : Escaped cs out) : plain cs = (out, none) := by
  induction h with
  | nil => rfl
  | pair hc _ ih => rw [plain, if_neg hc, ih, inFront, List.singleton_append]
  | @char c cs out hslash hbrace _ ih =>
    by_cases hnewline : c = '\\' ∧ cs.head? = some '\n'
    · obtain ⟨rfl, hhead⟩ := hnewline
      rw [List.eq_cons_of_mem_head? hhead] at ih ⊢
      rw [plain_newline, ih]
      rfl
    · rw [plain, ih, inFront, List.singleton_append]
      · rintro e es rfl rfl
        exact hnewline ⟨rfl, congrArg some (hslash rfl e rfl)⟩
      · rintro es rfl rfl
        exact hbrace rfl rfl

theorem unescape_escaped (h : Escaped cs out) : unescape cs = out := by
  induction h with
  | nil => rfl
  | pair hc _ ih => rw [unescape, if_neg hc, ih]
  | @char c cs out hslash _ _ ih =>
    by_cases hnewline : c = '\\' ∧ cs.head? = some '\n'
    · obtain ⟨rfl, hhead⟩ := hnewline
      rw [List.eq_cons_of_mem_head? hhead] at ih ⊢
      rw [← ih]
      rfl
    · rw [unescape, ih]
      rintro e es rfl rfl
      exact hnewline ⟨rfl, congrArg some (hslash rfl e rfl)⟩

/-- Every text is of this kind, or a tag opens in it. -/
theorem plain_eq_none_iff : (plain cs).2 = none ↔ ∃ out, Escaped cs out := by
  constructor
  · intro hnone
    fun_induction plain cs with
    | case1 => exact ⟨[], .nil⟩
    | case2 c cs ih =>
      obtain ⟨out, h⟩ := ih hnone
      by_cases hc : c = '\n'
      · subst hc
        have hnewline : Escaped ('\n' :: cs) ('\n' :: out) :=
          .char (fun hn => absurd hn (by decide)) (fun hn => absurd hn (by decide)) h
        refine ⟨'\\' :: '\n' :: out, .char (fun _ e he => ?_) (fun hn => absurd hn (by decide)) hnewline⟩
        exact (Option.mem_some.1 he).symm
      · exact ⟨c :: out, .pair hc h⟩
    | case3 => cases hnone
    | case4 c cs hslash hbrace ih =>
      obtain ⟨out, h⟩ := ih hnone
      refine ⟨c :: out, .char (fun hc e he => ?_) (fun hc he => ?_) h⟩
      · exact (hslash e cs.tail hc (List.eq_cons_of_mem_head? he)).elim
      · exact hbrace cs.tail hc (List.eq_cons_of_mem_head? he)
  · rintro ⟨out, h⟩
    rw [plain_escaped h]

def shield (cs : List Char) : List Char :=
  cs.flatMap fun c => if c = '\n' then [c] else ['\\', c]

theorem escaped_shield (cs : List Char) : Escaped (shield cs) cs := by
  induction cs with
  | nil => exact .nil
  | cons c cs ih =>
    rw [shield, List.flatMap_cons]
    split
    · next hc =>
      subst hc
      exact .char (fun hn => absurd hn (by decide)) (fun hn => absurd hn (by decide)) ih
    · next hc => exact .pair hc ih

end Text

variable {source : String} {out : List Char}

theorem Outline.ofSource_escaped (d : Dialect) (h : Text.Escaped source.toList out) :
    ofSource d source = .finished (textItems out) := by
  rw [ofSource, read_none (Text.plain_escaped h)]
  change ofExcept ((Draft.pushText out ⟨[], []⟩).finish 0) = _
  rw [Draft.pushText_nil, List.nil_append, Draft.behind, List.append_nil]
  rfl

/-- Round by round, with a search position apart from the text position, it is the same. -/
theorem Scan.run_escaped (d : Dialect) (h : Text.Escaped source.toList out) :
    (start source).run d = .finished (textItems out) :=
  (run_start d source).trans (Outline.ofSource_escaped d h)

/-- The source compiles whatever there is besides it, leaves that as it is, and renders to the text
in every context. -/
def RendersAs (source : String) (out : List Char) : Prop :=
  ∃ t, (∀ (d : Dialect) (waiting : Dict String) (shelf : Shelf),
      (compile d waiting source).run shelf = (.ok t, shelf)) ∧
    Template.ofSource source = .ok t ∧
    ∀ {σ : Type} (host : Host σ) (partial? : Dict Target → String → Option Template) (depth : Nat)
      (context : Value) (seed : Object),
      t.render host partial? depth context seed = pure (String.ofList out)

theorem rendersAs_of_escaped (h : Text.Escaped source.toList out) : RendersAs source out := by
  refine ⟨⟨source, textItems out, ⟨[]⟩⟩, fun d waiting shelf => ?_, ?_, fun {σ} _ _ _ _ _ => ?_⟩
  · rw [compile, Outline.ofSource_escaped d h]
    rfl
  · exact Template.ofSource_eq_ok_iff.2 ⟨_, by rw [Outline.ofSource_escaped _ h]; rfl, rfl⟩
  · exact Renderer.render_textItems _ _ _ _

/-- A source in which no two braces are met outside the pairs of a backslash and the character behind
it is the text without the backslashes of the pairs, which is the constant that the same characters
make between quotes. So each text is what it is with a backslash in front of each character but
newlines. -/
theorem compile_escapes :
    (∀ (source : String) (out : List Char), Text.Escaped source.toList out →
      RendersAs source out ∧ out = Text.unescape source.toList ∧
        ∀ quote ∈ ['"', '\''], Token.value? ⟨.const, quote :: source.toList ++ [quote]⟩ =
          some (.string (String.ofList out))) ∧
      ∀ text : String, RendersAs (String.ofList (Text.shield text.toList)) text.toList := by
  constructor
  · intro source out h
    have hout := Text.unescape_escaped h
    refine ⟨rendersAs_of_escaped h, hout.symm, fun quote hquote => ?_⟩
    have hvalue : Text.unescape (source.toList ++ [quote]).dropLast = out := by
      rw [List.dropLast_concat, hout]
    rcases List.mem_pair.1 hquote with rfl | rfl
    · exact congrArg (fun text => some (Value.string (String.ofList text))) hvalue
    · exact congrArg (fun text => some (Value.string (String.ofList text))) hvalue
  · intro text
    refine rendersAs_of_escaped ?_
    rw [String.toList_ofList]
    exact Text.escaped_shield text.toList

def escapes : String := String.ofList ['\\', '\x7b', '\x7b', '\\', '\\', '\\', '\n']

theorem escaped_escapes :
    Text.Escaped escapes.toList ['\x7b', '\x7b', '\\', '\\', '\n'] := by
  rw [escapes, String.toList_ofList]
  refine .pair (by decide) (.char nofun (by decide) (.pair (by decide) (.char ?_ nofun ?_)))
  · exact fun _ e he => (Option.mem_some.1 he).symm
  · exact .char nofun nofun .nil

theorem compile_escapes_line :
    Text.Escaped escapes.toList ['\x7b', '\x7b', '\\', '\\', '\n'] ∧
      RendersAs escapes ['\x7b', '\x7b', '\\', '\\', '\n'] :=
  ⟨escaped_escapes, (compile_escapes.1 _ _ escaped_escapes).1⟩

end Stencil
