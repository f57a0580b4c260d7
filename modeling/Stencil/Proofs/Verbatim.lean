import Stencil.Proofs.Closings
import Stencil.Proofs.Grammar
import Stencil.Proofs.Leading
import Stencil.Proofs.Positions

set_option autoImplicit false

/-!
# Raw blocks verbatim

The body of a raw block is the text up to the first closing tag of its name, whatever that text is made
of. Behind the closing tag a source goes on as if it began there.
-/
namespace Stencil

theorem Path.named_text (p : Path) : Text.Named p.text := by
  obtain ⟨first, later, hfirst, hlater⟩ := p
  have hname {name : List Char} (h : Token.IsName name) : Text.Named name :=
    Token.named_of_spells h rfl
  refine (hname hfirst).append ?_
  induction later with
  | nil => exact .nil
  | cons step later ih =>
    obtain ⟨hseparator, hstep⟩ := hlater step List.mem_cons_self
    have hseparated : Text.Named [step.1] := by
      rcases hseparator with heq | heq <;> rw [heq]
      · exact Token.named_of_symbol (show Token.symbol? '.' = some .dot from rfl) rfl
      · exact Token.named_of_symbol (show Token.symbol? '/' = some .slash from rfl) rfl
    exact (hseparated.append (hname hstep)).append
      (ih fun other hother => hlater other (List.mem_cons_of_mem _ hother))

/-- Behind a text without closing tags the first one is the one that stands there. -/
theorem RawEnd.rawBody?_first {name body text : List Char} {trims after : Bool}
    (hname : Text.Named name) (hwritten : Written name trims after text)
    (hbody : ∀ trims after other, Written name trims after other → ¬ other <:+: body) :
    rawBody? name (body ++ text) = some (body, ⟨trims, after, []⟩) := by
  induction body with
  | nil => exact hwritten.rawBody?_nil
  | cons c body ih =>
    have hnone : RawEnd.read? name (c :: (body ++ text)) = none := by
      cases hread : RawEnd.read? name (c :: (body ++ text)) with
      | none => rfl
      | some closer =>
        exfalso
        obtain ⟨other, hother, heq⟩ := written_of_read? hread
        rw [← List.cons_append] at heq
        rcases List.append_eq_append_iff.1 heq with ⟨inside, rfl, htext⟩ | ⟨beyond, hinside, -⟩
        · obtain rfl := not_overlapping hname hother (htext ▸ hwritten) (List.cons_ne_nil _ _)
          rw [List.append_nil] at hother
          exact hbody _ _ _ hother (List.infix_refl _)
        · exact hbody _ _ _ hother (hinside ▸ (List.prefix_append other beyond).isInfix)
    rw [List.cons_append, rawBody?, hnone, ih fun trims after other hother hinside =>
      hbody trims after other hother (hinside.trans (List.suffix_cons c body).isInfix)]
    rfl

namespace Cursor

/-- With two more braces the closer of a tag is that of a raw block. -/
theorem Closes.four {c : Cursor} {call : Call Expr} {d : Dialect} {rest : List Char}
    (h : Closes 0 (c.blockCall d) call ('\x7d' :: '\x7d' :: rest)) (hc : c.At c.chars) :
    ∃ a, enclosed 2 (c.blockCall d) = .ok a ∧ a.result = (call, false) ∧ a.cursor.rest = rest := by
  obtain ⟨a, b, ha, rfl, hb, htilde, hrest⟩ := h
  have hat := (blockCall_carries (alike_beyond c) d a ha).1.at_chars hc
  obtain ⟨f, hf, hcloser⟩ := exists_beforeCloser hat hb
  rw [htilde, hrest] at hcloser
  have hfour : f.At (closerText 2 false ++ rest) := hcloser
  obtain ⟨b', hb', htilde', hrest'⟩ := hf.gives hfour
  refine ⟨_, bind_eq_ok.2 ⟨a, ha, bind_eq_ok.2 ⟨b', hb', rfl⟩⟩, ?_, hrest'⟩
  exact congrArg (Prod.mk a.result) htilde'

end Cursor

namespace Path
variable (p : Path)

/-- The first character of a path is none that stands around names. -/
theorem exists_unmargined : ∃ c cs, p.text = c :: cs ∧ Text.isMargin c = false := by
  obtain ⟨c, cs, hc, -⟩ := p.exists_cons []
  rw [List.append_nil] at hc
  refine ⟨c, cs, hc, Bool.eq_false_iff.2 fun hmargin => ?_⟩
  have hwithin := p.named_text.margin [] c cs hc hmargin
  cases hwithin

def rawClosing : List Char :=
  List.replicate 4 '\x7b' ++ '/' :: (p.text ++ List.replicate 4 '\x7d')

def rawInside (args body : List Char) : List Char :=
  p.text ++ (args ++ (List.replicate 4 '\x7d' ++ (body ++ p.rawClosing)))

def rawBlock (args body : List Char) : List Char :=
  List.replicate 4 '\x7b' ++ p.rawInside args body

theorem opener_rawBlock (args body rest : List Char) :
    Opener.read ('\x7b' :: '\x7b' :: (p.rawInside args body ++ rest)) =
      ⟨.raw, false, p.rawInside args body ++ rest⟩ := by
  obtain ⟨c, cs, hc, hmargin⟩ := p.exists_unmargined
  have hinside : p.rawInside args body ++ rest =
      c :: (cs ++ (args ++ (List.replicate 4 '\x7d' ++ (body ++ p.rawClosing))) ++ rest) := by
    rw [rawInside, hc]
    rfl
  have htilde : c ≠ '~' := by
    rintro rfl
    cases hmargin
  rw [Opener.read_raw_eq, hinside, takeTilde_cons htilde]

theorem written_rawClosing : RawEnd.Written p.text false false p.rawClosing := by
  obtain ⟨c, cs, hc, hmargin⟩ := p.exists_unmargined
  have hname : ∀ x ∈ (RawEnd.fromName p.text [] false).head?, Text.isBlank x = false := by
    rw [hc]
    rintro x ⟨⟩
    unfold Text.isMargin at hmargin
    simp_all
  have hwritten : RawEnd.Written p.text false false _ :=
    .mk (List.forall_mem_nil _) (List.forall_mem_nil _) hname
  simpa [RawEnd.fromName, tildeIf, rawClosing] using hwritten

open Cursor

/-- A raw block is read as its call and the text between its tags. -/
theorem gives_rawBlock {d : Dialect} {cs body : List Char} {args : List Argument}
    (hargs : ReadsArguments d cs args) (hallowed : (p.call d args).Allowed d)
    (hbody : ∀ trims after other, RawEnd.Written p.text trims after other → ¬ other <:+: body)
    (place : Option Branch) (left : Nat) (rest : List Char) :
    TagRead.Gives (TagRead.read d place left ⟨.raw, false, p.rawInside cs body ++ rest⟩)
      (some (.raw (p.call d args) body)) false rest := by
  have hinside : p.rawInside cs body ++ rest =
      p.text ++ (cs ++ (List.replicate 4 '\x7d' ++ (body ++ p.rawClosing ++ rest))) := by
    simp only [rawInside, List.append_assoc]
  rw [hinside]
  have hname : (p.call d args).name.toList = p.text := String.toList_ofList
  have hfound :=
    (rawBody?_append (RawEnd.rawBody?_first p.named_text p.written_rawClosing hbody) rest).2
  generalize body ++ p.rawClosing ++ rest = behind at hfound
  obtain ⟨e, es, c', hes, he, -⟩ := hargs.at_behind ('\x7d' :: '\x7d' :: behind)
  obtain ⟨c, hc, htoken⟩ := p.at_text he es
  rw [← hes] at hc
  obtain ⟨a, ha, hresult, hrest⟩ :=
    (hargs.closes_blockCall p hallowed ('\x7d' :: '\x7d' :: behind) hc).four (hc.chars.symm ▸ hc)
  have hspace : c.token.kind ≠ .space := by
    rw [htoken]
    nofun
  refine TagRead.gives_raw.2 ⟨⟨c, hc.lt⟩, a, body, ⟨false, false, rest⟩, enter_eq hc hspace, ha, ?_,
    ?_, rfl, rfl⟩
  · rw [hresult, hrest, hname]
    exact hfound
  · rw [hresult]
    rfl

end Path

namespace Outline
variable {d : Dialect} {draft : Draft} {trims : Bool} {cs text inside : List Char}

theorem mark_of_read {place : Option Branch} {left : Nat} {opener : Opener}
    {r : TagRead opener.rest.length} (h : TagRead.read d place left opener = .ok r) :
    r.tag = none ∨ ∃ mark, r.mark = some mark := by
  have hcomment {terminator : List Char}
      (h : TagRead.comment left terminator opener.rest = .ok r) : r.tag = none := by
    unfold TagRead.comment at h
    split at h
    · cases h
    · cases h
      rfl
  unfold TagRead.read at h
  split at h
  · obtain ⟨p, -, h⟩ := Cursor.bind_eq_ok.1 h
    obtain ⟨call, -, h⟩ := Cursor.bind_eq_ok.1 h
    obtain ⟨trims, -, h⟩ := Cursor.bind_eq_ok.1 h
    dsimp only at h
    split at h
    · cases h
    · cases h
      exact .inr ⟨_, rfl⟩
  · exact .inl (hcomment h)
  · exact .inl (hcomment h)
  · obtain ⟨p, -, h⟩ := Cursor.bind_eq_ok.1 h
    obtain ⟨tag, -, h⟩ := Cursor.bind_eq_ok.1 h
    obtain ⟨a, -, h⟩ := Cursor.bind_eq_ok.1 h
    cases h
    exact .inr ⟨_, rfl⟩

theorem mark_of_asked {cs : List Char} {asked : Asked cs.length}
    (h : Asked.read d cs = .ok asked) {r : TagRead cs.length} (hr : asked.tag = .ok r) :
    ∃ mark, r.mark = some mark := by
  obtain ⟨p, -, h⟩ := Cursor.bind_eq_ok.1 h
  obtain ⟨name, -, h⟩ := Cursor.bind_eq_ok.1 h
  cases h
  dsimp only at hr
  rw [map_eq_pure_bind] at hr
  obtain ⟨a, -, hr⟩ := Cursor.bind_eq_ok.1 hr
  cases hr
  exact ⟨_, rfl⟩

/-- Where no block is open, it does not matter where the last tag was. -/
theorem read_unmarked (items : List Item) (trims : Bool) (mark mark' : Nat) (cs : List Char) :
    read d ⟨items, []⟩ trims mark cs = read d ⟨items, []⟩ trims mark' cs := by
  induction hn : cs.length using Nat.strongRecOn generalizing items trims mark mark' cs with
  | ind n ih =>
    subst hn
    have hpushed (text : List Char) : Draft.pushText text ⟨items, []⟩ = ⟨items ++ textItems text, []⟩ := by
      rw [Draft.pushText_nil]
      exact congrArg (Draft.mk · []) (List.append_nil _)
    cases hplain : Text.plain cs with
    | mk text tag =>
      cases tag with
      | none =>
        rw [read_none hplain, read_none hplain, hpushed]
        rfl
      | some inside =>
        have hlt := Text.length_lt_of_plain (congrArg Prod.snd hplain)
        have hopener := Opener.read_length inside
        have honward (items : List Item) {x : Except Failure (TagRead (Opener.read inside).rest.length)}
            (hx : ∀ r, x = .ok r → r.tag = none ∨ ∃ mark, r.mark = some mark) :
            onward d ⟨items, []⟩ mark x = onward d ⟨items, []⟩ mark' x := by
          cases x with
          | error f => rfl
          | ok r =>
            have hle := r.le
            unfold onward
            dsimp only
            rcases hx r rfl with htag | ⟨left, hleft⟩
            · rw [htag]
              exact ih r.rest.length (by omega) items r.trims _ _ r.rest rfl
            · rw [hleft]
              rfl
        rw [read_at_tag hplain, read_at_tag hplain]
        unfold atTag
        dsimp only
        rw [hpushed]
        split
        · cases hasked : Asked.read d (Opener.read inside).rest with
          | error f => rfl
          | ok asked =>
            exact congrArg (asking asked.name asked.left)
              (honward _ fun r hr => .inr (mark_of_asked hasked hr))
        · exact honward _ fun r => mark_of_read

end Outline

namespace Outline

/-- A raw block is one item, and what is behind it is read as it is by itself. -/
theorem read_rawBlock {d : Dialect} (p : Path) {cs body : List Char} {args : List Argument}
    (hargs : ReadsArguments d cs args) (hallowed : (p.call d args).Allowed d)
    (hbody : ∀ trims after other, RawEnd.Written p.text trims after other → ¬ other <:+: body)
    (items : List Item) (mark : Nat) (rest : List Char) :
    read d ⟨items, []⟩ false mark (p.rawBlock cs body ++ rest) =
      (read d {} false 0 rest).behind
        (items ++ [.block ⟨p.call d args, textItems body, [], false⟩]) := by
  have hplain : Text.plain (p.rawBlock cs body ++ rest) =
      ([], some ('\x7b' :: '\x7b' :: (p.rawInside cs body ++ rest))) := rfl
  have hopener := p.opener_rawBlock cs body rest
  have hgives := p.gives_rawBlock hargs hallowed hbody none
    (('\x7b' :: '\x7b' :: (p.rawInside cs body ++ rest)).length + 2) rest
  generalize hblock : Item.block ⟨p.call d args, textItems body, [], false⟩ = block
  have hadd : Draft.add (some (.raw (p.call d args) body)) ⟨items, []⟩ = .ok ⟨items ++ [block], []⟩ := by
    rw [← hblock]
    rfl
  have hbehind : Draft.behind (items ++ [block]) {} = ⟨items ++ [block], []⟩ :=
    congrArg (Draft.mk · []) (List.append_nil _)
  obtain ⟨mark', hmark⟩ := onward_leads hgives hadd mark
  rw [read_at_tag hplain, atTag_ordinary (by rw [hopener]; nofun), hopener]
  refine hmark.trans ?_
  rw [read_unmarked _ _ _ 0, ← hbehind]
  exact read_of_behind _ {} false 0 rest

end Outline

section
variable {d : Dialect} {waiting : Dict String} {shelf shelf' : Shelf} {front : String} {t : Template}
  {cs body : List Char} {args : List Argument}

/-- Behind a template, a raw block comes to one text at most: what stands between its tags, as it
stands there, if no closing tag of its name does. Whatever is behind it is read as it is by itself. -/
theorem compile_rawBlock (hfront : (compile d waiting front).run shelf = (.ok t, shelf'))
    (hends : Text.Ends front.toList) (p : Path) (hargs : ReadsArguments d cs args)
    (hallowed : (p.call d args).Allowed d)
    (hbody : ∀ trims after other, RawEnd.Written p.text trims after other → ¬ other <:+: body)
    (rest : String) :
    let source := front ++ String.ofList (p.rawBlock cs body) ++ rest
    let block : Item := .block ⟨p.call d args, textItems body, [], false⟩
    (compile d waiting source).run shelf =
      ((Outline.ofSource d rest).behind (t.items ++ [block])).link source (resolve d waiting)
        t.links shelf' := by
  intro source block
  obtain ⟨found, hscript, -⟩ := Outline.link_script hfront
  have hsource : source.toList = front.toList ++ '\x7b' :: '\x7b' :: ('\x7b' :: '\x7b' ::
      (p.rawInside cs body ++ rest.toList)) := by
    simp [source, Path.rawBlock, List.replicate]
  have hopener := p.opener_rawBlock cs body rest.toList
  obtain ⟨mark, hleads⟩ :=
    Outline.read_leads hscript hends {} (congrArg Opener.trims hopener) 0
  obtain ⟨hitems, hlink⟩ := hleads.link hscript hfront source
  have hread := Outline.read_rawBlock p hargs hallowed hbody t.items mark rest.toList
  have hfinished : Draft.pushAll found.2 {} = ⟨t.items, []⟩ := by
    rw [hitems]
    exact Draft.pushAll_finished [] t.items
  unfold compile Outline.ofSource
  rw [hsource]
  refine hlink.trans ?_
  rw [hfinished]
  exact congrArg (fun o : Outline => o.link source (resolve d waiting) t.links shelf') hread

end

theorem RawEnd.Written.slash {name text : List Char} {trims after : Bool}
    (h : Written name trims after text) : '/' ∈ text := by
  obtain ⟨-, -, -⟩ := h
  simp

def Path.rawWord : Path := .ofName "raw".toList rfl

def untouched : String := "\x7b\x7b#if \"\\~\x7b\x7b\x7b\x7braw\x7d\x7d\x7d\x7d\x7d\x7b"

/-- A raw block with tags around it. -/
theorem compile_rawBlock_untouched :
    let d : Dialect := { helpers := Builtin.registry }
    let shelf : Shelf := ⟨{}, ⟨[]⟩, ⟨[]⟩, []⟩
    let x : Item := .escaped (.reference ⟨false, 0, ["x"]⟩ true)
    let y : Item := .escaped (.reference ⟨false, 0, ["y"]⟩ true)
    let block : Item := .block ⟨Path.rawWord.call d [], [.text untouched], [], false⟩
    let source := "\x7b\x7bx\x7d\x7d" ++
      String.ofList (Path.rawWord.rawBlock [] untouched.toList) ++ "\x7b\x7by\x7d\x7d"
    (compile d ⟨[]⟩ "\x7b\x7bx\x7d\x7d").run shelf = (.ok ⟨"\x7b\x7bx\x7d\x7d", [x], ⟨[]⟩⟩, shelf) ∧
      Text.Ends "\x7b\x7bx\x7d\x7d".toList ∧ ReadsArguments d [] [] ∧
      (Path.rawWord.call d []).Allowed d ∧
      (∀ trims after other, RawEnd.Written Path.rawWord.text trims after other →
        ¬ other <:+: untouched.toList) ∧
      (compile d ⟨[]⟩ source).run shelf = (.ok ⟨source, [x, block, y], ⟨[]⟩⟩, shelf) := by
  intro d shelf x y block source
  have hfront : (compile d ⟨[]⟩ "\x7b\x7bx\x7d\x7d").run shelf =
      (.ok ⟨"\x7b\x7bx\x7d\x7d", [x], ⟨[]⟩⟩, shelf) := by cbv
  have hends : Text.Ends "\x7b\x7bx\x7d\x7d".toList := by
    intro c hc
    cases hc
    decide
  have hargs : ReadsArguments d [] [] := readsArguments_nil d
  have hallowed : (Path.rawWord.call d []).Allowed d := Call.allowed_of_lenient rfl _
  have hbody : ∀ trims after other, RawEnd.Written Path.rawWord.text trims after other →
      ¬ other <:+: untouched.toList := by
    intro trims after other hother hinside
    exact absurd (hinside.mem hother.slash) (by decide)
  refine ⟨hfront, hends, hargs, hallowed, hbody, ?_⟩
  have hrest : Outline.ofSource d "\x7b\x7by\x7d\x7d" = .finished [y] := by cbv
  have hcompile := compile_rawBlock hfront hends Path.rawWord hargs hallowed hbody "\x7b\x7by\x7d\x7d"
  rw [hrest] at hcompile
  exact hcompile

end Stencil
