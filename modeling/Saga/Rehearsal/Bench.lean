import Saga.Context.Frame
import Saga.Links
import Saga.Pending
import Saga.Rehearsal.Script

/-!
# Rehearsals of single parts

Steps on one descriptor, one set of links, one context frame, one pending outcome, or a row of
deferred answers. Each rehearsal gives what its steps show, in their order.
-/

set_option autoImplicit false

namespace Saga.Rehearsal

/-! ## One descriptor -/

/-- What the check of a role gives. -/
inductive RoleCheck where
  | invalid (error : ContractError)
  /-- No participant: nothing is bound. -/
  | discarded (owner : String)
  /-- The summary, the inspected text, the outcomes of calls (none where nothing is bound), and the
  trace. -/
  | valid (summary : Summary) (inspected : String) (outcomes : List (Option Outcome))
      (trace : List (Entry Unit))

/-- Calls one callback after the other. -/
def invokeAll (d : Descriptor (Stage Unit)) :
    List (Operation × ActionId × Option ActionId) → Stage Unit → List (Option Outcome) × Stage Unit
  | [], s => ([], s)
  | (op, id, parent) :: calls, s =>
    match d.callback? op with
    | none =>
      let (outcomes, s) := invokeAll d calls s
      (none :: outcomes, s)
    | some c =>
      let (outcome, s) := c.invoke id parent s
      let (outcomes, s) := invokeAll d calls s
      (some outcome :: outcomes, s)

/-- Checks a role and calls its callbacks. -/
def checkRole (role : Role) (calls : List (Operation × ActionId × Option ActionId)) : RoleCheck :=
  match Descriptor.ofDeclaration (role.candidate (ρ := Unit) 0).declaration with
  | .error e => .invalid e
  | .ok none => .discarded role.owner
  | .ok (some d) =>
    let (outcomes, s) := invokeAll d calls (.empty false)
    .valid (.ofDescriptor d) d.inspect outcomes s.trace.reverse

/-! ## One set of links -/

/-- A step on a set of links. -/
inductive LinksStep where
  | insert (operation : Operation) (url : String)
  | parse (header : String)
  | extend (role : Role) (base : String)
  | ofDescriptor (role : Role) (base : String)
  | reparse

/-- What a step on a set of links shows. -/
inductive LinksResult where
  | links (links : Links)
  | invalid (error : ContractError)
  /-- No participant: nothing is bound. -/
  | discarded
  | reparsed (same : Bool) (links : Links)

/-- Takes the links of a role's descriptor in. -/
def takeIn (role : Role) (f : Descriptor (Stage Unit) → Links) (links : Links) :
    LinksResult × Links :=
  match Descriptor.ofDeclaration (role.candidate (ρ := Unit) 0).declaration with
  | .error e => (.invalid e, links)
  | .ok none => (.discarded, links)
  | .ok (some d) => (.links (f d), f d)

/-- Plays a step on a set of links. -/
def LinksStep.play (links : Links) : LinksStep → LinksResult × Links
  | insert op url => (.links (links.insert op url), links.insert op url)
  | parse header => (.links (Links.ofHeader header), Links.ofHeader header)
  | extend role base => takeIn role (fun d => links.extend d base) links
  | ofDescriptor role base => takeIn role (fun d => Links.ofDescriptor d base) links
  | reparse =>
    let again := Links.ofHeader links.toHeader
    (.reparsed (again = links) again, links)

/-- Plays steps on an empty set of links. -/
def playLinks (steps : List LinksStep) : List LinksResult :=
  (steps.foldl (fun (acc : List LinksResult × Links) step =>
    let (result, links) := step.play acc.2
    (result :: acc.1, links)) ([], .empty)).1.reverse

/-! ## One frame -/

/-- A step on a context frame. -/
inductive FrameStep where
  | push (id : ActionId)
  | pop
  | remove (id : ActionId)
  | peek
  | contains (id : ActionId)
  | put (key : String) (value : Scratch)
  | get (key : String) (kind : ScratchKind)
  | inspect
  | unknown

/-- What a step on a context frame shows. -/
inductive FrameResult where
  | nothing
  | flag (value : Bool)
  | id (id : Option ActionId)
  | previous (value : Option Scratch)
  | scratch (value : Option Scratch)
  | text (text : String)

/-- Plays a step on a frame. -/
def FrameStep.play (f : Frame) : FrameStep → FrameResult × Frame
  | push id =>
    let (changed, f) := f.push id
    (.flag changed, f)
  | pop =>
    let (id, f) := f.pop
    (.id id, f)
  | remove id =>
    let (removed, f) := f.remove id
    (.flag removed, f)
  | peek => (.id f.peek, f)
  | contains id => (.flag (id ∈ f.ids), f)
  | put key value =>
    let (old, f) := f.store key value
    (.previous old, f)
  | get key kind => (.scratch (f.load kind key), f)
  | inspect => (.text f.inspect, f)
  | unknown => (.nothing, f)

/-- Plays steps on an empty frame; each shows its result and the active actions. -/
def playFrame (steps : List FrameStep) : List (FrameResult × List ActionId) :=
  (steps.foldl (fun (acc : List (FrameResult × List ActionId) × Frame) step =>
    let (result, f) := step.play acc.2
    ((result, f.ids) :: acc.1, f)) ([], .empty)).1.reverse

/-! ## One pending outcome -/

/-- A step on a pending outcome. -/
inductive PendingStep where
  | resolve (value : Cue)
  | take
  | inspect
  | unknown

/-- What a step on a pending outcome shows. -/
inductive PendingResult where
  | nothing
  | flag (value : Bool)
  | answer (answer : Option Answer)
  | brokeDown (text : String)
  | text (text : String)

/-- Plays a step on a pending outcome. -/
def PendingStep.play (p : PendingCell) (t : Tickets) :
    PendingStep → PendingResult × PendingCell × Tickets
  | resolve value =>
    match value.play t with
    | (.brokeDown text, t) => (.brokeDown text, p, t)
    | (.answered a, t) =>
      let (first, p) := p.resolve a
      (.flag first, p, t)
  | take =>
    let (a, p) := p.take
    (.answer a, p, t)
  | inspect => (.text p.inspect, p, t)
  | unknown => (.nothing, p, t)

/-- Plays steps on a pending outcome; each shows its result and the state. -/
def playPending (op : Operation) (steps : List PendingStep) :
    List (PendingResult × CellState × Bool) :=
  (steps.foldl
    (fun (acc : List (PendingResult × CellState × Bool) × PendingCell × Tickets) step =>
      let (result, p, t) := step.play acc.2.1 acc.2.2
      ((result, p.state, p.isResolved) :: acc.1, p, t))
    ([], .ofOperation op, .none)).1.reverse

/-! ## A row of deferred answers -/

/-- A step on a row of deferred answers. -/
inductive DeferredStep where
  | make (value : Cue)
  | poll (slot : Nat)
  | drop (slot : Nat)
  | abandon (ticket : Ticket)
  | resolve (ticket : Ticket) (value : Cue)
  | unknown

/-- What a step on a row of deferred answers shows. -/
inductive DeferredResult where
  | nothing
  | slot (slot : Nat)
  | answer (answer : Answer)
  | flag (value : Bool)
  | word (word : String)
  | brokeDown (text : String)

/-- A row of deferred answers, some of them gone. -/
structure Row where
  slots : List (Option Deferred)
  tickets : Tickets

namespace Row

/-- Would the handle `t` reach anything in the row? -/
def awaits (row : Row) (t : Ticket) : Bool :=
  row.slots.any fun slot =>
    match slot with
    | some d => d.awaits t
    | none => false

/-- The handle `t` is used to hand in `a`. -/
def fulfil (row : Row) (t : Ticket) (a : Answer) : Row :=
  { row with slots := row.slots.map fun slot => slot.map (Deferred.fulfil t a) }

/-- Plays a step on a row. -/
def play (row : Row) : DeferredStep → DeferredResult × Row
  | .make value =>
    match value.play row.tickets with
    | (.brokeDown text, t) => (.brokeDown text, { row with tickets := t })
    | (.answered (.deferred d), t) => (.slot row.slots.length, ⟨row.slots ++ [some d], t⟩)
    | (.answered a, t) => (.answer a, { row with tickets := t })
  | .poll i =>
    match row.slots[i]? with
    | some (some (.ready a)) => (.answer a, { row with slots := row.slots.set i none })
    | some (some (.awaiting _)) | some (some .lost) => (.word "pending", row)
    | some none | none => (.word "gone", row)
  | .drop i =>
    match row.slots[i]? with
    | some (some _) => (.flag true, { row with slots := row.slots.set i none })
    | some none | none => (.flag false, row)
  | .abandon n =>
    match row.tickets.find? (some n) with
    | none => (.flag false, row)
    | some n =>
      (.flag true, ({ row with tickets := row.tickets.use n }).fulfil n .abandoned)
  | .resolve n value =>
    match row.tickets.find? (some n) with
    | none => (.word "used", row)
    | some n =>
      match value.play (row.tickets.use n) with
      | (.brokeDown text, t) =>
        (.brokeDown text, ({ row with tickets := t }).fulfil n .abandoned)
      | (.answered a, t) => (.flag (row.awaits n), ({ row with tickets := t }).fulfil n a)
  | .unknown => (.nothing, row)

end Row

/-- Plays steps on an empty row. -/
def playDeferred (steps : List DeferredStep) : List DeferredResult :=
  (steps.foldl (fun (acc : List DeferredResult × Row) step =>
    let (result, row) := acc.2.play step
    (result :: acc.1, row)) ([], ⟨[], .none⟩)).1.reverse

end Saga.Rehearsal
