import Stencil.Proofs.Pieces

set_option autoImplicit false

/-!
# Written references

A reference with each name in brackets is read as that reference, and not as a name.
-/
namespace Stencil

def InBrackets (name : String) : Prop := name.toList ≠ [] ∧ ']' ∉ name.toList

def bracketed (name : String) : List Char := '[' :: name.toList ++ [']']

def ups : Nat → List Char
  | 0 => []
  | n + 1 => '.' :: '.' :: '/' :: ups n

namespace Reference

def front (data : Bool) : Nat → List Char
  | 0 => if data then [] else ['.', '/']
  | up + 1 => ups (up + 1)

def place (r : Reference) : List Char :=
  match r.names, r.up with
  | [], 0 => "this".toList
  | [], up + 1 => ups up ++ ['.', '.']
  | first :: later, up => front r.data up ++
    Cursor.pathText (bracketed first) (later.map fun name => ('.', bracketed name))

def print (r : Reference) : List Char := if r.data then '@' :: r.place else r.place

end Reference

def Ends (x : Char) : Prop := Text.isBlank x = true ∨ x = ')' ∨ x = '\x7d'

namespace Cursor

theorem nameOf_bracketed (name : String) : nameOf (bracketed name) = name := by
  change String.ofList (name.toList ++ [']']).dropLast = name
  rw [List.dropLast_concat, String.ofList_toList]

end Cursor

theorem isName_bracketed {name : String} (h : InBrackets name) : Token.IsName (bracketed name) :=
  Token.isName_bracketed h.1 h.2

section
open Cursor
variable {x : Char} {xs : List Char}

theorem Ends.endsName (h : Ends x) : EndsName x := by
  rcases h with h | rfl | rfl
  · exact endsName_blank h
  · exact ⟨by decide, by decide⟩
  · exact ⟨by decide, by decide⟩

theorem Ends.kind (h : Ends x) {c : Cursor} (hc : c.At (x :: xs)) :
    c.token.kind = .space ∨ c.token.kind = .rightParen ∨ c.token.kind = .brace := by
  rcases h with h | rfl | rfl
  · exact .inl (kind_of_blank h hc)
  · have hread : Token.read (')' :: xs) = .ok (⟨.rightParen, [')']⟩, xs) := Token.read_symbol rfl xs
    exact .inr (.inl (by rw [hc.eq hread]))
  · exact .inr (.inr (by rw [hc.eq (at_brace xs)]; rfl))

theorem Ends.kind_ne (h : Ends x) {c : Cursor} (hc : c.At (x :: xs)) {kind : TokenKind}
    (hkind : kind ≠ .space ∧ kind ≠ .rightParen ∧ kind ≠ .brace) : c.token.kind ≠ kind := by
  intro heq
  rcases h.kind hc with h | h | h
  · exact hkind.1 (heq.symm.trans h)
  · exact hkind.2.1 (heq.symm.trans h)
  · exact hkind.2.2 (heq.symm.trans h)

theorem Ends.at (h : Ends x) (xs : List Char) : ∃ c : Cursor, c.At (x :: xs) := by
  rcases h with h | rfl | rfl
  · exact ⟨⟨_, _⟩, Token.read_blank h xs⟩
  · exact ⟨⟨⟨.rightParen, [')']⟩, xs⟩, Token.read_symbol rfl xs⟩
  · exact ⟨_, at_brace xs⟩

end

namespace Cursor
variable {c e : Cursor} {rest : List Char}

def dot (rest : List Char) : Cursor := ⟨⟨.dot, ['.']⟩, rest⟩

def slash (rest : List Char) : Cursor := ⟨⟨.slash, ['/']⟩, rest⟩

theorem at_dot (rest : List Char) : (dot rest).At ('.' :: rest) := Token.read_symbol rfl rest

theorem at_slash (rest : List Char) : (slash rest).At ('/' :: rest) := Token.read_symbol rfl rest

theorem at_ups (he : e.At rest) (k : Nat) : ∃ c : Cursor, c.At (ups k ++ rest) := by
  cases k with
  | zero => exact ⟨e, he⟩
  | succ k => exact ⟨_, at_dot ('.' :: '/' :: (ups k ++ rest))⟩

theorem climb_ups (he : e.At rest) (k up : Nat) (here : Bool) (hc : c.At (ups k ++ rest))
    {r : Nat × Option Bool} {d : Cursor} (h : Gives (e.climb (up + k) here) r d) :
    Gives (c.climb up here) r d := by
  induction k generalizing c up with
  | zero =>
    obtain rfl := hc.eq he
    exact h
  | succ k ih =>
    obtain ⟨f, hf⟩ := at_ups he k
    obtain rfl := hc.eq (at_dot ('.' :: '/' :: (ups k ++ rest)))
    rw [← Nat.add_assoc, Nat.add_right_comm] at h
    obtain ⟨hle, hclimb⟩ := ih (up + 1) hf h
    have hlt := hf.lt
    have hfirst : (dot ('.' :: '/' :: (ups k ++ rest))).eat .dot =
        .ok (some ⟨dot ('/' :: (ups k ++ rest)), _⟩) := eat_eq_some rfl (at_dot _)
    have hsecond : (dot ('/' :: (ups k ++ rest))).eat .dot =
        .ok (some ⟨slash (ups k ++ rest), _⟩) := eat_eq_some rfl (at_slash _)
    have hthird : (slash (ups k ++ rest)).eat .slash = .ok (some ⟨f, _⟩) := eat_eq_some rfl hf
    refine ⟨?_, ?_⟩
    · change d.rest.length ≤ (ups k ++ rest).length + 2
      omega
    · change climb up here (dot ('.' :: '/' :: (ups k ++ rest))) = _
      rw [climb, hfirst, ok_bind]
      dsimp only
      rw [hsecond, ok_bind]
      dsimp only
      rw [hthird, ok_bind]
      dsimp only
      rw [hclimb]
      rfl

theorem climb_end {d : Cursor} (up : Nat) (here : Bool) (hc : c.At ('.' :: '.' :: rest))
    (hd : d.At rest) (hslash : d.token.kind ≠ .slash) :
    Gives (c.climb up here) (up + 1, none) d := by
  obtain rfl := hc.eq (at_dot ('.' :: rest))
  have hlt := hd.lt
  have hfirst : (dot ('.' :: rest)).eat .dot = .ok (some ⟨dot rest, _⟩) :=
    eat_eq_some rfl (at_dot _)
  have hsecond : (dot rest).eat .dot = .ok (some ⟨d, _⟩) := eat_eq_some rfl hd
  refine ⟨?_, ?_⟩
  · change d.rest.length ≤ rest.length + 1
    omega
  · change climb up here (dot ('.' :: rest)) = _
    rw [climb, hfirst, ok_bind]
    dsimp only
    rw [hsecond, ok_bind]
    dsimp only
    rw [eat_eq_none hslash, ok_bind]
    rfl

theorem climb_stop (up : Nat) (here : Bool) (hc : c.token.kind ≠ .dot) :
    Gives (c.climb up here) (up, some (here || decide (0 < up))) c := by
  refine ⟨Nat.le_refl _, ?_⟩
  rw [climb, eat_eq_none hc, ok_bind]
  rfl

theorem climb_here (up : Nat) (here : Bool) (hc : c.At ('.' :: '/' :: rest)) (he : e.At rest)
    (hdot : e.token.kind ≠ .dot) : Gives (c.climb up here) (up, some true) e := by
  obtain rfl := hc.eq (at_dot ('/' :: rest))
  have hlt := he.lt
  have hfirst : (dot ('/' :: rest)).eat .dot = .ok (some ⟨slash rest, _⟩) :=
    eat_eq_some rfl (at_slash _)
  have hsecond : (slash rest).eat .dot = .ok none := eat_eq_none (fun h => nomatch h)
  have hthird : (slash rest).eat .slash = .ok (some ⟨e, _⟩) := eat_eq_some rfl he
  obtain ⟨hle, hstop⟩ := climb_stop up true hdot
  refine ⟨?_, ?_⟩
  · change e.rest.length ≤ rest.length + 1
    omega
  · change climb up here (dot ('/' :: rest)) = _
    rw [climb, hfirst, ok_bind]
    dsimp only
    rw [hsecond, ok_bind]
    dsimp only
    rw [hthird, ok_bind]
    dsimp only
    rw [hstop]
    rfl

def afterAt (data : Bool) (c : Cursor) : Except Failure (c.Ahead (Option Reference)) := do
  match ← c.eat .thisWord with
  | some past =>
    let dotted ← past.1.skip .dot
    if dotted.result then
      let r ← dotted.cursor.referenceNames data 0 true
      return (past.ahead ()).goOn (dotted.goOn r)
    else return (past.ahead ()).goOn (dotted.map fun _ => some ⟨data, 0, []⟩)
  | none =>
    let climbed ← c.climb 0 false
    match climbed.result.2 with
    | some required =>
      let r ← climbed.cursor.referenceNames data climbed.result.1 required
      return climbed.goOn r
    | none => return climbed.map fun place => some ⟨data, place.1, []⟩

theorem reference?_of_afterAt {data : Bool} {d e : Cursor} {r : Option Reference}
    (hskip : Gives (c.skip .atSign) data d) (h : Gives (d.afterAt data) r e) :
    Gives c.reference? r e := by
  obtain ⟨hd, hskip⟩ := hskip
  obtain ⟨he, hafter⟩ := h
  have hread : c.reference? = (do
      let a ← d.afterAt data
      return ⟨a.result, a.cursor, Nat.le_trans a.le hd⟩) := by
    unfold reference? afterAt
    rw [hskip, ok_bind]
    dsimp only
    rw [bind_assoc]
    apply bind_congr
    intro found
    cases found with
    | some past =>
      obtain ⟨f, hf⟩ := past
      dsimp only
      rw [bind_assoc]
      apply bind_congr
      rintro ⟨dotted, g, hg⟩
      dsimp only
      cases dotted with
      | false => rfl
      | true =>
        rw [if_pos rfl, if_pos rfl, bind_assoc]
        rfl
    | none =>
      dsimp only
      rw [bind_assoc]
      apply bind_congr
      rintro ⟨⟨up, required⟩, f, hf⟩
      cases required with
      | none => rfl
      | some required =>
        dsimp only
        rw [bind_assoc]
        rfl
  refine ⟨Nat.le_trans he hd, ?_⟩
  rw [hread, hafter]
  rfl

section
variable {data : Bool} {d : Cursor}

theorem afterAt_this (hc : c.token.kind = .thisWord) (hd : d.At c.rest)
    (hdot : d.token.kind ≠ .dot) : Gives (c.afterAt data) (some ⟨data, 0, []⟩) d := by
  refine ⟨Nat.le_of_lt hd.lt, ?_⟩
  unfold afterAt
  rw [eat_eq_some hc hd, ok_bind]
  dsimp only
  rw [skip_eq_false hdot, ok_bind]
  rfl

theorem afterAt_climb (hc : c.token.kind ≠ .thisWord) {up : Nat}
    (h : Gives (c.climb 0 false) (up, none) d) :
    Gives (c.afterAt data) (some ⟨data, up, []⟩) d := by
  obtain ⟨hle, hclimb⟩ := h
  refine ⟨hle, ?_⟩
  unfold afterAt
  rw [eat_eq_none hc, ok_bind]
  dsimp only
  rw [hclimb]
  rfl

theorem afterAt_names (hc : c.token.kind ≠ .thisWord) {up : Nat} {required : Bool}
    (h : Gives (c.climb 0 false) (up, some required) e) {path : List (String × String)}
    (hnames : Gives e.names? (some path) d) :
    Gives (c.afterAt data) (some ⟨data, up, path.map Prod.snd⟩) d := by
  obtain ⟨hle, hclimb⟩ := h
  obtain ⟨hle', hnames⟩ := hnames
  refine ⟨Nat.le_trans hle' hle, ?_⟩
  have hreference : e.referenceNames data up required =
      .ok ⟨some ⟨data, up, path.map Prod.snd⟩, d, hle'⟩ := by
    unfold referenceNames
    rw [hnames]
    rfl
  unfold afterAt
  rw [eat_eq_none hc, ok_bind]
  dsimp only
  rw [hclimb, ok_bind]
  dsimp only
  rw [hreference]
  rfl

end

end Cursor

def pathOf (first : String) (later : List String) (hfirst : InBrackets first)
    (hlater : ∀ name ∈ later, InBrackets name) : Path where
  first := bracketed first
  later := later.map fun name => ('.', bracketed name)
  isName := isName_bracketed hfirst
  isNames := by
    intro step hstep
    obtain ⟨name, hname, rfl⟩ := List.mem_map.1 hstep
    exact ⟨.inl rfl, isName_bracketed (hlater name hname)⟩

theorem map_stepsOf (first : String) (later : List String) :
    (Cursor.stepsOf "" (bracketed first)
      (later.map fun name => ('.', bracketed name))).map Prod.snd = first :: later := by
  rw [Cursor.map_snd_stepsOf, Cursor.nameOf_bracketed, List.map_map]
  congr 1
  have hid : ((fun step : Char × List Char => Cursor.nameOf step.2) ∘
      fun name : String => ('.', bracketed name)) = id := by
    funext name
    exact Cursor.nameOf_bracketed name
  rw [hid, List.map_id]

section
open Cursor
variable {x : Char} {xs : List Char}

theorem at_this (hx : Ends x) (xs : List Char) :
    At ⟨⟨.thisWord, "this".toList⟩, x :: xs⟩ ("this".toList ++ x :: xs) :=
  Token.read_run (by decide) (List.all_eq_true.1 (by decide)) hx.endsName.name xs
    (Token.number?_append_none (by decide) (by decide) hx.endsName.digit xs)

theorem kind_ne {c : Cursor} {kind other : TokenKind} (h : c.token.kind = kind)
    (hne : kind ≠ other) : c.token.kind ≠ other := by
  rw [h]
  exact hne

/-- Points and slashes that end in two points go up and name nothing. -/
theorem place_up_gives (data : Bool) (up : Nat) {d : Cursor} (hd : d.At (x :: xs))
    (hslash : d.token.kind ≠ .slash) :
    ∃ c : Cursor, c.At (Reference.place ⟨data, up + 1, []⟩ ++ x :: xs) ∧ c.token.kind = .dot ∧
      Gives (c.afterAt data) (some ⟨data, up + 1, []⟩) d := by
  have hend : At (dot ('.' :: x :: xs)) ('.' :: '.' :: x :: xs) := at_dot _
  have hplace : Reference.place ⟨data, up + 1, []⟩ ++ x :: xs = ups up ++ '.' :: '.' :: x :: xs := by
    change (ups up ++ ['.', '.']) ++ x :: xs = _
    rw [List.append_assoc]
    rfl
  obtain ⟨c, hc⟩ := at_ups hend up
  have hkind : c.token.kind = .dot := by
    cases up with
    | zero => rw [hc.eq hend]; rfl
    | succ up => rw [hc.eq (at_dot _)]; rfl
  have hclimb := climb_ups hend up 0 false hc (climb_end _ _ hend hd hslash)
  rw [Nat.zero_add] at hclimb
  rw [hplace]
  exact ⟨c, hc, hkind, afterAt_climb (kind_ne hkind (by decide)) hclimb⟩

/-- Names follow the points and slashes, or begin the place behind an `@`. -/
theorem place_names_gives {r : Reference} {first : String} {later : List String}
    (hr : r.names = first :: later) (h : ∀ name ∈ r.names, InBrackets name) (hx : Ends x)
    {d : Cursor} (hd : d.At (x :: xs)) (hsep : ¬ (d.token.kind = .dot ∨ d.token.kind = .slash)) :
    ∃ c : Cursor, c.At (r.place ++ x :: xs) ∧
      (c.token.kind = .dot ∨ r.data = true ∧ c.token.kind = .ident) ∧
      Gives (c.afterAt r.data) (some r) d := by
  obtain ⟨data, up, names⟩ := r
  cases hr
  have hfirst := h first List.mem_cons_self
  have hlater := fun name hname => h name (List.mem_cons_of_mem _ hname)
  let p := pathOf first later hfirst hlater
  obtain ⟨e, he, htoken⟩ := p.at_text hx.endsName xs
  have hnames := p.names?_text hx.endsName he hd hsep
  have hplace : Reference.place ⟨data, up, first :: later⟩ ++ x :: xs =
      Reference.front data up ++ (p.text ++ x :: xs) := List.append_assoc _ _ _
  have hresult : (⟨data, up, first :: later⟩ : Reference) =
      ⟨data, up, (stepsOf "" p.first p.later).map Prod.snd⟩ := by
    rw [show (stepsOf "" p.first p.later).map Prod.snd = _ from map_stepsOf first later]
  have hekind : e.token.kind = .ident := by rw [htoken]
  have hedot : e.token.kind ≠ .dot := kind_ne hekind (by decide)
  rw [hplace, hresult]
  cases up with
  | zero =>
    cases data with
    | true =>
      exact ⟨e, he, .inr ⟨rfl, hekind⟩,
        afterAt_names (kind_ne hekind (by decide)) (climb_stop 0 false hedot) hnames⟩
    | false =>
      have hfront := at_dot ('/' :: (p.text ++ x :: xs))
      have hkind : (dot ('/' :: (p.text ++ x :: xs))).token.kind = .dot := rfl
      exact ⟨_, hfront, .inl hkind,
        afterAt_names (kind_ne hkind (by decide)) (climb_here 0 false hfront he hedot) hnames⟩
  | succ up =>
    obtain ⟨c, hc⟩ := at_ups he (up + 1)
    have hkind : c.token.kind = .dot := by rw [hc.eq (at_dot _)]; rfl
    have hclimb := climb_ups he (up + 1) 0 false hc (climb_stop _ _ hedot)
    rw [Nat.zero_add] at hclimb
    exact ⟨c, hc, .inl hkind, afterAt_names (kind_ne hkind (by decide)) hclimb hnames⟩

theorem place_gives {r : Reference} (h : ∀ name ∈ r.names, InBrackets name) (hx : Ends x)
    {d : Cursor} (hd : d.At (x :: xs)) :
    ∃ c : Cursor, c.At (r.place ++ x :: xs) ∧ c.token.kind ≠ .atSign ∧ c.token.kind ≠ .space ∧
      (r.data = false → c.token.kind ≠ .ident) ∧ Gives (c.afterAt r.data) (some r) d := by
  have hdot : d.token.kind ≠ .dot := hx.kind_ne hd (by decide)
  have hslash : d.token.kind ≠ .slash := hx.kind_ne hd (by decide)
  obtain ⟨data, up, names⟩ := r
  cases names with
  | nil =>
    cases up with
    | zero =>
      have hkind : (Cursor.mk ⟨.thisWord, "this".toList⟩ (x :: xs)).token.kind = .thisWord := rfl
      exact ⟨_, at_this hx xs, kind_ne hkind (by decide), kind_ne hkind (by decide),
        fun _ => kind_ne hkind (by decide), afterAt_this hkind hd hdot⟩
    | succ up =>
      obtain ⟨c, hc, hkind, hgives⟩ := place_up_gives data up hd hslash
      exact ⟨c, hc, kind_ne hkind (by decide), kind_ne hkind (by decide),
        fun _ => kind_ne hkind (by decide), hgives⟩
  | cons first later =>
    have hsep : ¬ (d.token.kind = .dot ∨ d.token.kind = .slash) := not_or.2 ⟨hdot, hslash⟩
    obtain ⟨c, hc, hkind, hgives⟩ := place_names_gives rfl h hx hd hsep
    rcases hkind with hkind | ⟨hdata, hkind⟩
    · exact ⟨c, hc, kind_ne hkind (by decide), kind_ne hkind (by decide),
        fun _ => kind_ne hkind (by decide), hgives⟩
    · refine ⟨c, hc, kind_ne hkind (by decide), kind_ne hkind (by decide), fun hnone => ?_, hgives⟩
      cases hdata.symm.trans hnone

/-- A written reference is read as the reference, and it does not begin with a name. -/
theorem reference_gives {r : Reference} (h : ∀ name ∈ r.names, InBrackets name) (hx : Ends x)
    {d : Cursor} (hd : d.At (x :: xs)) :
    ∃ c : Cursor, c.At (r.print ++ x :: xs) ∧ c.token.kind ≠ .ident ∧ c.token.kind ≠ .space ∧
      Gives c.reference? (some r) d := by
  obtain ⟨e, he, hat, hspace, hident, hafter⟩ := place_gives h hx hd
  cases hdata : r.data with
  | false =>
    rw [hdata] at hafter
    have hprint : r.print = r.place := by simp [Reference.print, hdata]
    rw [hprint]
    exact ⟨e, he, hident hdata, hspace,
      reference?_of_afterAt ⟨Nat.le_refl _, skip_eq_false hat⟩ hafter⟩
  | true =>
    rw [hdata] at hafter
    have hprint : r.print ++ x :: xs = '@' :: (r.place ++ x :: xs) := by
      simp [Reference.print, hdata]
    let c : Cursor := ⟨⟨.atSign, ['@']⟩, r.place ++ x :: xs⟩
    have hread : c.At ('@' :: (r.place ++ x :: xs)) := Token.read_symbol rfl _
    have hkind : c.token.kind = .atSign := rfl
    have hskip : c.skip .atSign = .ok ⟨true, e, Nat.le_of_lt he.lt⟩ := skip_eq_true hkind he
    rw [hprint]
    exact ⟨c, hread, kind_ne hkind (by decide), kind_ne hkind (by decide),
      reference?_of_afterAt ⟨_, hskip⟩ hafter⟩

end

end Stencil
