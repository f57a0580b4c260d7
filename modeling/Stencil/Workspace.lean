import Stencil.Environment

set_option autoImplicit false

/-!
# Workspaces

Several environments side by side, and handles of templates that were saved. They share one
library, so a saved template keeps the partials it includes even after the environments have
dropped them.
-/
namespace Stencil

structure Workspace where
  library : Library := {}
  environments : List (Nat × Environment) := []
  /-- In the order in which they were last saved. -/
  saved : List (String × TemplateId) := []

inductive PartialOffer
  | source (text : String)
  /-- A source to compile on its own first. -/
  | template (source : String)
  | saved (name : String)

/-- Options whose partials are still to be made. -/
structure Offer where
  options : Options := {}
  partials : List (String × PartialOffer) := []

inductive Step
  | renew
  | render (source : String) (context : Value) (offer : Offer)
  | compile (source name : String) (cached : Bool) (offer : Offer)
  | newTemplate (source name : String)
  | renderSaved (name : String) (context : Value) (data : Object)
  | dropSaved (name : String)
  | registerHelper (name : String) (h : Helper)
  | unregisterHelper (name : String)
  | registerPartial (name : String) (p : PartialOffer)
  | unregisterPartial (name : String)
  | setKnownHelpersOnly (on : Bool)
  | setNoFunctionValues (on : Bool)
  | clearCache

inductive Answer
  | done
  | text (text : String)
  | failed (e : TemplateError)
  | noSuchTemplate
  /-- A saved template, and the first handle that held the same one before. -/
  | saved (template : Template) (sameAs : Option String)
  | previousHelper (h : Option Helper)
  /-- The source of the partial, and whether it had been compiled. -/
  | previousPartial (p : Option (String × Bool))

def Template.inspect (t : Template) : String :=
  "Template \x7b source: " ++ Text.quoted t.source ++ ", .. \x7d"

namespace Workspace

def environment (w : Workspace) (number : Nat) : Environment :=
  (w.environments.lookup number).getD {}

def putEnvironment (w : Workspace) (number : Nat) (e : Environment) : Workspace :=
  { w with environments := (number, e) :: w.environments.filter fun entry => entry.1 ≠ number }

def saved? (w : Workspace) (name : String) : Option TemplateId := w.saved.lookup name

def handle? (w : Workspace) (id : TemplateId) : Option String :=
  (w.saved.find? fun entry => entry.2 = id).map Prod.fst

def save (w : Workspace) (name : String) (id : TemplateId) : Workspace :=
  { w with saved := w.saved.filter (fun entry => entry.1 ≠ name) ++ [(name, id)] }

def heldElsewhere (w : Workspace) (number : Nat) : List TemplateId :=
  w.saved.map Prod.snd ++
    (w.environments.filter fun entry => entry.1 ≠ number).flatMap fun entry => entry.2.held

def held (w : Workspace) : List TemplateId :=
  w.saved.map Prod.snd ++ w.environments.flatMap fun entry => entry.2.held

def session (w : Workspace) (number : Nat) : Session :=
  { environment := w.environment number, library := w.library
    heldElsewhere := w.heldElsewhere number }

def close (w : Workspace) (number : Nat) (s : Session) : Workspace :=
  { w.putEnvironment number s.environment with library := s.library }

def makePartial (w : Workspace) : PartialOffer → Except Answer (Partial × Workspace)
  | .source text => .ok (.source text, w)
  | .template source =>
    match Template.ofSource source with
    | .ok t => .ok (.compiled w.library.next, { w with library := w.library.add t })
    | .error e => .error (.failed e)
  | .saved name =>
    match w.saved? name with
    | some id => .ok (.compiled id, w)
    | none => .error .noSuchTemplate

def makePartials (w : Workspace) :
    List (String × PartialOffer) → Except Answer (List (String × Partial) × Workspace)
  | [] => .ok ([], w)
  | (name, offer) :: rest => do
    let (p, w) ← w.makePartial offer
    let (ps, w) ← w.makePartials rest
    return ((name, p) :: ps, w)

def makeOptions (w : Workspace) (o : Offer) : Except Answer (Options × Workspace) := do
  let (ps, w) ← w.makePartials o.partials
  return ({ o.options with partials := .ofList ps }, w)

def describe (w : Workspace) : Partial → String × Bool
  | .source text => (text, false)
  | .compiled id => (((w.library.get? id).map Template.source).getD "", true)

/-- Saves a template and says which handle held it before. -/
def saveTemplate (w : Workspace) (name : String) (id : TemplateId) : Answer × Workspace :=
  match w.library.get? id with
  | some t => (.saved t (w.handle? id), w.save name id)
  | none => (.noSuchTemplate, w)

def answerOf : Except TemplateError String → Answer
  | .ok text => .text text
  | .error e => .failed e

structure Turn (σ : Type) where
  answer : Answer
  events : List Event := []
  state : σ
  workspace : Workspace

section
variable {σ : Type} (w : Workspace) (number : Nat) (host : Host σ) (depth : Nat) (state : σ)

def renderStep (source : String) (context : Value) (offer : Offer) : Option (Turn σ) :=
  match w.makeOptions offer with
  | .error answer => some { answer, state, workspace := w }
  | .ok (o, w) => do
    let (outcome, state, s) ← (w.session number).render host depth source context o state
    return { answer := answerOf outcome, events := s.events, state, workspace := w.close number s }

def compileStep (source name : String) (cached : Bool) (offer : Offer) : Turn σ :=
  match w.makeOptions offer with
  | .error answer => { answer, state, workspace := w }
  | .ok (o, w) =>
    let compile := if cached then Session.compile else Session.compileUncached
    let (outcome, s) := compile source o (w.session number)
    let w := w.close number s
    match outcome with
    | .error e => { answer := .failed e, events := s.events, state, workspace := w }
    | .ok id =>
      let (answer, w) := w.saveTemplate name id
      { answer, events := s.events, state, workspace := w }

def renderSavedStep (name : String) (context : Value) (data : Object) : Option (Turn σ) :=
  match w.saved? name with
  | none => some { answer := .noSuchTemplate, state, workspace := w }
  | some id => do
    let (outcome, world) ← (w.library.render w.held host depth id context data).run { state }
    return {
      answer := answerOf outcome, events := world.events, state := world.state
      workspace := w }

def changeStep (answer : Answer) (e : Environment) : Turn σ :=
  { answer, state, workspace := w.putEnvironment number e }

/-- Takes a step in environment `number`, which exists from its first use on. There is no result
if rendering goes deeper than `depth`. -/
def step (s : Step) : Option (Turn σ) :=
  let e := w.environment number
  match s with
  | .renew => w.changeStep number state .done {}
  | .render source context offer => w.renderStep number host depth state source context offer
  | .compile source name cached offer => w.compileStep number state source name cached offer
  | .newTemplate source name =>
    match Template.ofSource source with
    | .error e => some { answer := .failed e, state, workspace := w }
    | .ok t =>
      let (answer, w) := saveTemplate { w with library := w.library.add t } name w.library.next
      some { answer, state, workspace := w }
  | .renderSaved name context data => w.renderSavedStep host depth state name context data
  | .dropSaved name =>
    let saved := w.saved.filter fun entry => entry.1 ≠ name
    some { answer := .done, state, workspace := { w with saved } }
  | .registerHelper name h =>
    w.changeStep number state (.previousHelper (e.helpers.get? name))
      { e with helpers := e.helpers.insert name h }
  | .unregisterHelper name =>
    w.changeStep number state (.previousHelper (e.helpers.get? name))
      { e with helpers := e.helpers.erase name }
  | .registerPartial name offer =>
    match w.makePartial offer with
    | .error answer => some { answer, state, workspace := w }
    | .ok (p, w) =>
      w.changeStep number state (.previousPartial ((e.partials.get? name).map w.describe))
        { e with partials := e.partials.insert name p }
  | .unregisterPartial name =>
    w.changeStep number state (.previousPartial ((e.partials.get? name).map w.describe))
      { e with partials := e.partials.erase name }
  | .setKnownHelpersOnly on => w.changeStep number state .done { e with knownHelpersOnly := on }
  | .setNoFunctionValues on => w.changeStep number state .done { e with noFunctionValues := on }
  | .clearCache => w.changeStep number state .done { e with cache := ⟨[]⟩ }

end

end Workspace
end Stencil
