import ScopedVars.Proofs.Chain.Resolution
import ScopedVars.Proofs.Project.LayoutNames

/-!
# `Proofs/Chain/Reports` — the log tells what resolved

A chain reports how it was built, where names were found, and which ones the lenient lookup missed;
that is all there is in the log. Four lookups share the report of a hit, one of them alone reports a
miss, and no other question to a chain leaves a trace. So the log of a *session*, a chain that is
built and then asked one query after the other, is the logs of its parts in a row (`tellsSession`),
and what a query leaves there is settled by the first hit of its name.

A hit is reported once, although every container in front of it was asked too: the search stops at
the first answer, and a container reports only what it has. `findWithScope` reports when the search
is over; a search that reports from inside, as it goes along (`firstSome`), does the same
(`findWithScope_eq_firstSome`).
-/

set_option autoImplicit false

namespace ScopedVars

namespace Logged

variable {α β : Type}

/-- The events of an operation, each with its level. -/
def log (l : Logged α) : List (Level × Event) :=
  l.events.map fun e => (e.level, e)

/-- Goes through a list with a step that may report, up to the first answer. -/
def firstSome (step : Nat → α → Logged (Option β)) : Nat → List α → Logged (Option β)
  | _, [] => ⟨none, []⟩
  | i, a :: rest =>
    let seen := step i a
    match seen.answer with
    | some b => ⟨some b, seen.events⟩
    | none =>
      let later := firstSome step (i + 1) rest
      ⟨later.answer, seen.events ++ later.events⟩

end Logged

/-! ## Layouts found in a project -/

namespace Placed

variable {p : Placed String Project} {l : Placed LayoutPlace Layout}

theorem contains_of_layoutAt? {i : Nat} (h : p.layoutAt? i = some l) :
    p.contains l.place = true := by
  obtain ⟨o, ho, rfl⟩ := Option.map_eq_some_iff.mp h
  obtain ⟨hi, -⟩ := List.getElem?_eq_some_iff.mp ho
  exact List.any_eq_true.mpr ⟨i, List.mem_range.mpr hi, beq_self_eq_true _⟩

theorem contains_of_layoutNamed? {name : String} (h : p.layoutNamed? name = some l) :
    p.contains l.place = true := by
  obtain ⟨i, -, hl⟩ := Option.bind_eq_some_iff.mp h
  exact contains_of_layoutAt? hl

theorem name_of_layoutNamed? {name : String} (h : p.layoutNamed? name = some l) :
    l.object.name = name := by
  obtain ⟨i, hi, hl⟩ := Option.bind_eq_some_iff.mp h
  obtain ⟨o, ho, rfl⟩ := Option.map_eq_some_iff.mp hl
  have hname := (Project.layoutIndex?_eq_some.mp hi).1
  rw [Project.getElem?_layoutNames, ho] at hname
  exact Option.some.inj hname

end Placed

namespace Chain

/-! ## Reporting while searching -/

/-- Asks one container, which reports what it has. -/
def look (name : String) (depth : Nat) (scope : Placed ContainerPlace Container) :
    Logged (Option Hit) :=
  match scope.object.get? name with
  | some v => ⟨some ⟨depth, scope, v⟩, [.resolved name depth]⟩
  | none => ⟨none, []⟩

theorem firstSome_look (name : String) : ∀ (scopes : List (Placed ContainerPlace Container))
    (depth : Nat), Logged.firstSome (look name) depth scopes
      = ⟨search name depth scopes,
          ((search name depth scopes).map fun hit => Event.resolved name hit.depth).toList⟩
  | [], _ => rfl
  | head :: rest, depth => by
    cases hv : head.object.get? name with
    | some v => simp only [Logged.firstSome, look, search, hv, Option.map_some, Option.toList]
    | none =>
      simp only [Logged.firstSome, look, search, hv, List.nil_append]
      rw [firstSome_look name rest (depth + 1)]

theorem findWithScope_eq_firstSome (c : Chain) (name : String) :
    c.findWithScope name = Logged.firstSome (look name) 0 c.scopes := by
  rw [firstSome_look]
  unfold findWithScope
  cases search name 0 c.scopes <;> rfl

/-! ## One query -/

/-- What a chain can be asked. -/
inductive Query where
  | has (name : String)
  | find (name : String)
  | lookup (name : String)
  | findWithScope (name : String)
  | get (name : String)
  | hasContainer (place : ContainerPlace)
  | containers
  | visibleNames
  | size
  | isEmpty
  | debug

inductive Reply where
  | truth (b : Bool)
  | found (v : Option Variable)
  | required (v : Except Refusal Variable)
  | located (hit : Option Hit)
  | handed (h : Handle)
  | containers (cs : List Container)
  | names (ns : List String)
  | count (n : Nat)
  | text (s : String)

/-- The name that a query looks up. To ask whether a name is there is no lookup. -/
def Query.sought? : Query → Option String
  | find name | lookup name | findWithScope name | get name => some name
  | has _ | hasContainer _ | containers | visibleNames | size | isEmpty | debug => none

def ask (c : Chain) : Query → Logged Reply
  | .has name => ⟨.truth (c.has name), []⟩
  | .find name => (c.find name).map .found
  | .lookup name => (c.lookup name).map .required
  | .findWithScope name => (c.findWithScope name).map .located
  | .get name => (c.get name).map .handed
  | .hasContainer place => ⟨.truth (c.hasContainer place), []⟩
  | .containers => ⟨.containers c.containers, []⟩
  | .visibleNames => ⟨.names c.visibleNames, []⟩
  | .size => ⟨.count c.size, []⟩
  | .isEmpty => ⟨.truth c.isEmpty, []⟩
  | .debug => ⟨.text c.debug, []⟩

/-- A hit is reported by every lookup, once, with the depth at which it stands. -/
structure TellsHit (c : Chain) (name : String) (hit : Hit) : Prop where
  answer : (c.findWithScope name).answer = some hit
  stands : c.scopes[hit.depth]? = some hit.scope
  once : ∀ q : Query, q.sought? = some name → (c.ask q).log = [(.trace, .resolved name hit.depth)]

/-- A miss is reported by the lookup that hides it, and by no other. -/
structure TellsMiss (c : Chain) (name : String) : Prop where
  answer : (c.findWithScope name).answer = none
  findWithScope : (c.ask (.findWithScope name)).log = []
  find : (c.ask (.find name)).log = []
  lookup : (c.ask (.lookup name)).log = []
  get : (c.ask (.get name)).log = [(.warn, .unresolved name c.size)]

theorem FirstHit.tellsHit {c : Chain} {name : String} {hit : Hit} (h : c.FirstHit name hit) :
    c.TellsHit name hit := by
  have hscope : c.findWithScope name = ⟨some hit, [.resolved name hit.depth]⟩ := by
    unfold Chain.findWithScope
    rw [h.search_eq]
  have hfind : c.find name = ⟨some hit.value, [.resolved name hit.depth]⟩ := by
    unfold Chain.find
    rw [hscope]
    rfl
  refine ⟨congrArg Logged.answer hscope, h.stands, fun q hq => ?_⟩
  cases q with
  | find | lookup | findWithScope | get =>
    cases hq
    simp [ask, Logged.log, Chain.lookup, Chain.get, Logged.map, hfind, hscope,
      Event.level]
  | _ => cases hq

theorem Undefined.tellsMiss {c : Chain} {name : String} (h : c.Undefined name) :
    c.TellsMiss name := by
  have hscope : c.findWithScope name = ⟨none, []⟩ := by
    unfold Chain.findWithScope
    rw [h.search_eq]
  have hfind : c.find name = ⟨none, []⟩ := by
    unfold Chain.find
    rw [hscope]
    rfl
  constructor
  case answer => rw [hscope]
  case findWithScope => simp [ask, Logged.log, Logged.map, hscope]
  case find => simp [ask, Logged.log, Logged.map, hfind]
  case lookup => simp [ask, Logged.log, Logged.map, Chain.lookup, hfind]
  case get => simp [ask, Logged.log, Logged.map, Chain.get, hfind, Event.level]

theorem log_ask_of_silent (c : Chain) {q : Query} (h : q.sought? = none) : (c.ask q).log = [] := by
  cases q with
  | find | lookup | findWithScope | get => cases h
  | _ => rfl

/-! ## One query after the other -/

def askAll (c : Chain) : List Query → Logged (List Reply)
  | [] => ⟨[], []⟩
  | q :: rest =>
    let first := c.ask q
    let later := askAll c rest
    ⟨first.answer :: later.answer, first.events ++ later.events⟩

theorem log_askAll (c : Chain) (qs : List Query) :
    (c.askAll qs).log = qs.flatMap fun q => (c.ask q).log := by
  induction qs with
  | nil => rfl
  | cons q rest ih =>
    rw [List.flatMap_cons, ← ih]
    exact List.map_append

theorem answer_askAll (c : Chain) (qs : List Query) :
    (c.askAll qs).answer = qs.map fun q => (c.ask q).answer := by
  induction qs with
  | nil => rfl
  | cons q rest ih => exact congrArg _ ih

/-! ## Building -/

/-- The ways to come by a chain. The empty chain is the default too. -/
inductive Origin where
  | empty
  | forLayout (p : Placed String Project) (l : Placed LayoutPlace Layout)
  | named (p : Placed String Project) (layout : String)
  | copy (of : Origin)

namespace Origin

/-- A copy of a chain has the same containers in the same places, so it is that chain. -/
def build : Origin → Except Refusal (Logged Chain)
  | empty => .ok ⟨.empty, []⟩
  | forLayout p l => .ok (Chain.forLayout p l)
  | named p layout => forLayoutNamed p layout
  | copy o => o.build

/-- A chain is built, if it can be, and then asked. -/
def session (o : Origin) (qs : List Query) : Logged (Except Refusal (List Reply)) :=
  match o.build with
  | .ok chain =>
    let replies := chain.answer.askAll qs
    ⟨.ok replies.answer, chain.events ++ replies.events⟩
  | .error e => ⟨.error e, []⟩

/-- What building alone leaves in the log. -/
def log (o : Origin) : List (Level × Event) :=
  (o.session []).log

end Origin

/-- A layout that is not one of the project's is reported before the chain is. -/
structure TellsBuilding (p : Placed String Project) (l : Placed LayoutPlace Layout) : Prop where
  owned : p.contains l.place = true → (Origin.forLayout p l).log
    = [(.debug, .builtChain p.object.name l.object.name (forLayout p l).answer.size)]
  foreign : p.contains l.place = false → (Origin.forLayout p l).log
    = [(.debug, .foreignLayout l.object.name p.object.name),
      (.debug, .builtChain p.object.name l.object.name (forLayout p l).answer.size)]

/-- A layout that was found by its name is one of the project's, so there is nothing else to report
than the chain. -/
structure TellsNamed (p : Placed String Project) (layout : String) : Prop where
  built : ∀ chain, forLayoutNamed p layout = .ok chain → (Origin.named p layout).log
    = [(.debug, .builtChain p.object.name layout chain.answer.size)]
  refused : ∀ e, forLayoutNamed p layout = .error e → (Origin.named p layout).log = []

/-- What each way to come by a chain leaves in the log. -/
def Origin.Tells : Origin → Prop
  | empty => Origin.empty.log = []
  | forLayout p l => TellsBuilding p l
  | named p layout => TellsNamed p layout
  | copy o => (copy o).log = o.log

theorem tellsBuilding (p : Placed String Project) (l : Placed LayoutPlace Layout) :
    TellsBuilding p l := by
  constructor
  case owned | foreign =>
    intro h
    simp [Origin.log, Origin.session, Origin.build, forLayout, askAll, Logged.log, h, Event.level]

theorem tellsNamed (p : Placed String Project) (layout : String) : TellsNamed p layout := by
  constructor
  case built =>
    intro chain hchain
    obtain ⟨l, hl, rfl⟩ := eq_forLayout_of_named hchain
    have hsame : (Origin.named p layout).log = (Origin.forLayout p l).log := by
      simp only [Origin.log, Origin.session, Origin.build, hchain]
    rw [hsame, (tellsBuilding p l).owned (Placed.contains_of_layoutNamed? hl),
      Placed.name_of_layoutNamed? hl]
  case refused =>
    intro e he
    simp [Origin.log, Origin.session, Origin.build, he, Logged.log]

theorem Origin.tells : ∀ o : Origin, o.Tells
  | empty => rfl
  | forLayout p l => tellsBuilding p l
  | named p layout => tellsNamed p layout
  | copy _ => rfl

/-! ## A session -/

/-- The log of a session is the logs of its parts in a row, and so are its replies. -/
structure TellsSession (o : Origin) (qs : List Query) : Prop where
  log : ∀ chain, o.build = .ok chain →
    (o.session qs).log = o.log ++ qs.flatMap fun q => (chain.answer.ask q).log
  answer : ∀ chain, o.build = .ok chain →
    (o.session qs).answer = .ok (qs.map fun q => (chain.answer.ask q).answer)
  refused : ∀ e, o.build = .error e → (o.session qs).answer = .error e ∧ (o.session qs).log = []

theorem tellsSession (o : Origin) (qs : List Query) : TellsSession o qs := by
  constructor
  case log =>
    intro chain hchain
    have hsession : (o.session qs).log = chain.log ++ (chain.answer.askAll qs).log := by
      simp [Origin.session, Logged.log, hchain]
    have hbuild : o.log = chain.log := by
      simp [Origin.log, Origin.session, Logged.log, hchain, askAll]
    rw [hsession, hbuild, log_askAll]
  case answer =>
    intro chain hchain
    simp only [Origin.session, hchain, answer_askAll]
  case refused =>
    intro e he
    simp [Origin.session, Logged.log, he]

/-- What a chain leaves in the log is settled by where its names resolve. -/
structure TellsTruth (c : Chain) : Prop where
  decided : ∀ name, (∃ hit, c.FirstHit name hit) ∨ c.Undefined name
  hit : ∀ name hit, c.FirstHit name hit → c.TellsHit name hit
  miss : ∀ name, c.Undefined name → c.TellsMiss name
  silent : ∀ q : Query, q.sought? = none → (c.ask q).log = []
  /-- A search that reports as it goes along stops at the same container. -/
  stops : ∀ name, c.findWithScope name = Logged.firstSome (look name) 0 c.scopes

theorem tellsTruth (c : Chain) : c.TellsTruth where
  decided := c.exists_firstHit_or_undefined
  hit _ _ h := h.tellsHit
  miss _ h := h.tellsMiss
  silent _ h := c.log_ask_of_silent h
  stops := c.findWithScope_eq_firstSome

/-- **The log tells the truth about resolution**: for every chain and every query, for every way to
come by a chain, and for every session from that on. -/
theorem log_tells_what_resolves :
    (∀ c : Chain, c.TellsTruth) ∧ (∀ o : Origin, o.Tells)
    ∧ ∀ (o : Origin) (qs : List Query), TellsSession o qs :=
  ⟨tellsTruth, Origin.tells, tellsSession⟩

/-- A layout that no project owns. -/
def stray : Placed LayoutPlace Layout :=
  ⟨.loose "stray", ⟨"attic", .empty⟩⟩

/-- The chain of the wrong layout reports itself, the name that the layout lacks is found one
deeper, and the one that is nowhere is told once: by the lenient lookup. -/
theorem stray_session_logged :
    ((Origin.copy (.forLayout shadowed stray)).session
      [.has "score", .find "lives", .find "score", .get "score"]).log
      = [(.debug, .foreignLayout "attic" "game"), (.debug, .builtChain "game" "attic" 2),
        (.trace, .resolved "lives" 1), (.warn, .unresolved "score" 2)] := by
  obtain ⟨htruth, hbuilding, hsession⟩ := log_tells_what_resolves
  have htruth := htruth (forLayout shadowed stray).answer
  have hlives := htruth.hit "lives" _ (firstHit_global rfl rfl)
  have hscore := htruth.miss "score" (undefined_forLayout rfl rfl)
  have hcopied : (Origin.copy (.forLayout shadowed stray)).log
      = (Origin.forLayout shadowed stray).log := hbuilding (.copy _)
  have hbuilt := (hbuilding (.forLayout shadowed stray)).foreign (by decide)
  rw [(hsession _ _).log _ rfl, hcopied, hbuilt]
  simp only [List.flatMap_cons, List.flatMap_nil, htruth.silent (.has "score") rfl,
    hlives.once (.find "lives") rfl, hscore.find, hscore.get]
  rfl

end Chain

end ScopedVars
