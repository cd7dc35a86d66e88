import Restio.Guarantees.DemoService

/-!
# Names that stay

A resource of the demo gets its name from a JSON text, which may spell anything, and is
deleted by the path that ends with this name. Let targets be made of certain characters:
then the resources that can still go, from any state of a demo that takes connections,
are those whose names are of these characters, not empty and without `/`
(`name_removable_iff`). All others stay in every run.
-/

set_option autoImplicit false

namespace Restio.Guarantees.ResourceNames
open Restio.Lib Restio.Source.Http Restio.Source.HandlerStore Restio.Source.HttpServer
open Restio.Source.Connections Restio.Source.AsyncRest Restio.Source.Demo Restio.Spec.Resources
open Restio.Guarantees.DemoService

/-- The request that an event brings, with its connection. -/
def brought : Event → List (Nat × Request)
  | .session id wakeup => wakeup.asked.map (fun request => (id, request))
  | _ => []

/-- All requests have targets of these characters. -/
def TargetsIn (allowed : Char → Prop) (events : List Event) : Prop :=
  ∀ entry ∈ events.flatMap brought, ∀ c ∈ entry.2.target, allowed c

/-- The path of the resources, in front of a name. -/
def resourcePath : Str := "/api/v1/resource/".toList

def removal (name : Str) : Request where
  method := .delete_
  target := resourcePath ++ name

section Names
variable {name : Str}

/-- A name between slashes is neither empty nor has slashes or foreign characters. -/
theorem pieces_plain {text : Str} (member : name ∈ Text.pieces '/' text) :
    name ≠ [] ∧ '/' ∉ name ∧ ∀ c ∈ name, c ∈ text := by
  obtain ⟨part, nonempty⟩ := List.mem_filter.mp member
  refine ⟨by simpa using nonempty, Text.sep_not_mem_of_mem_splitOn '/' part, ?_⟩
  intro c spelled
  have whole : ['/'].intercalate (text.splitOn '/') = text := List.intercalate_splitOn '/'
  rw [← whole]
  exact Text.mem_intercalate_of_mem part spelled

theorem mem_of_behind {path target tail : Str} (found : behind path target = some tail) {c : Char}
    (member : c ∈ tail) : c ∈ target := by
  have left : c ∈ HttpHandlerStore.dropSlash target := by
    rw [((behind_eq_some_iff path target tail).mp found).1]
    exact List.mem_append_right _ member
  unfold HttpHandlerStore.dropSlash at left
  split at left
  · exact List.mem_of_mem_tail left
  · exact left

theorem call_removal (nonempty : name ≠ []) (plain : '/' ∉ name) :
    Call.of (removal name) = .delete name := by
  have tail : behind "api/v1".toList (removal name).target =
      some ('/' :: ("resource".toList ++ '/' :: name)) := by
    rw [behind_eq_some_iff]
    exact ⟨rfl, rfl⟩
  have segments : Text.pieces '/' ('/' :: ("resource".toList ++ '/' :: name)) =
      ["resource".toList, name] := by
    have leading := Text.pieces_append_sep '/' [] ("resource".toList ++ '/' :: name)
    rw [List.nil_append] at leading
    have resource : Text.pieces '/' "resource".toList = ["resource".toList] :=
      Text.pieces_part '/' (by decide) (by decide)
    rw [leading, Text.pieces_append_sep, Text.pieces_part '/' nonempty plain, resource]
    rfl
  rw [Call.of, tail]
  simp only [List.cons_ne_nil, if_false]
  rw [segments]
  rfl

end Names

section Runs
variable {json : Nlohmann} {beast : Beast} {events later : List Event} {s s' : System State}

/-- The history is what the events have brought. -/
theorem history_eq {service : Service State} {app : State}
    (reached : Reached service app events s) : s.history = events.flatMap brought := by
  refine EventMachine.run_induction (motive := fun done s => s.history = done.flatMap brought)
    reached rfl ?_
  intro done s event s' held stepped
  rw [List.flatMap_append, List.flatMap_singleton, ← held]
  rcases step_cases stepped with ⟨rfl, rfl⟩ | ⟨rfl, rfl⟩ | ⟨outcome, rfl, -, accepted⟩ |
    ⟨id, wakeup, c, shared', c', rfl, -, -, -, rfl⟩
  · exact (List.append_nil _).symm
  · exact (List.append_nil _).symm
  · rcases System.accept_cases accepted with ⟨-, -, rfl⟩ | ⟨_, _, -, -, rfl⟩ | ⟨_, -, -, rfl⟩ <;>
      exact (List.append_nil _).symm
  · rfl

/-- The resources go on from those that there are. -/
theorem resources_later (reached : Reached (demo json beast) {} events s)
    (reached' : Reached (demo json beast) {} (events ++ later) s') :
    s'.shared.app.resources =
      (serveAll json (later.flatMap brought) s.shared.app.resources).1 := by
  rw [demo_shared reached, demo_shared reached', history_eq reached, history_eq reached',
    List.flatMap_append, serveAll_append]

theorem running_of_goesOn (reached : Reached (demo json beast) {} events s)
    (goesOn : s.shared.app.stopped = false) :
    (demo json beast).running s.shared.app = true := by
  have lives : s.shared.app.aborted = false := by rw [demo_shared reached]
  simp [demo, Host.service, host, goesOn, lives]

/-- A connection more, which asks for one thing. -/
def asking (s : System State) (request : Request) : List Event :=
  [.accept .socket, .session s.connections.length (.read (some request))]

theorem asking_happens {service : Service State} {app : State}
    (reached : Reached service app events s) (running : service.running s.shared.app = true)
    (listening : s.listener = .accepting true) (request : Request) :
    ∃ s', Reached service app (events ++ asking s request) s' := by
  unfold Reached
  rw [EventMachine.run_append, reached]
  simp [asking, EventMachine.run, step, System.accept, listening, running, Connection.wake]

end Runs

/-- Which resources can still go, from any state in which the demo takes connections. -/
theorem name_removable_iff (json : Nlohmann) (beast : Beast) (allowed : Char → Prop)
    (spellable : ∀ c ∈ resourcePath, allowed c) (events : List Event) (s : System State)
    (reached : Reached (demo json beast) {} events s)
    (goesOn : s.shared.app.stopped = false) (listening : s.listener = .accepting true)
    (name : Str) (held : name ∈ s.shared.app.resources) :
    (∃ later s', Reached (demo json beast) {} (events ++ later) s' ∧ TargetsIn allowed later ∧
        name ∉ s'.shared.app.resources) ↔
      name ≠ [] ∧ '/' ∉ name ∧ ∀ c ∈ name, allowed c := by
  constructor
  · rintro ⟨later, s', reached', targets, gone⟩
    rw [resources_later reached reached'] at gone
    have deleted : ∃ entry ∈ later.flatMap brought, Call.of entry.2 = .delete name := by
      by_contra none
      refine gone (serveAll_keeps held (fun entry member deletes => none ⟨entry, member, deletes⟩))
    obtain ⟨entry, member, deletes⟩ := deleted
    obtain ⟨tail, isApi, piece⟩ := Call.mem_pieces_of_delete deletes
    obtain ⟨nonempty, plain, spelled⟩ := pieces_plain piece
    refine ⟨nonempty, plain, fun c inName => targets entry member c ?_⟩
    exact mem_of_behind isApi (spelled c inName)
  · rintro ⟨nonempty, plain, spelled⟩
    obtain ⟨s', reached'⟩ :=
      asking_happens reached (running_of_goesOn reached goesOn) listening (removal name)
    refine ⟨_, s', reached', ?_, ?_⟩
    · intro entry member c inTarget
      have only : entry = (s.connections.length, removal name) := by
        simpa [asking, brought, Wakeup.asked] using member
      rw [only] at inTarget
      exact (List.mem_append.mp inTarget).elim (spellable c) (spelled c)
    · rw [resources_later reached reached']
      have once : (asking s (removal name)).flatMap brought =
          [(s.connections.length, removal name)] := rfl
      rw [once, serveAll, serveAll, call_removal nonempty plain]
      simp [Call.answer, held]

/-- A resource whose name has a slash. -/
def slashed : List Event :=
  [.accept .socket,
    .session 0 (.read (some { added with body := "\x7b\"name\":\"a/b\"\x7d".toList })),
    .session 0 (.wrote false)]

theorem slashed_stays :
    ∃ s, Reached (demo plainJson acceptingBeast) {} slashed s ∧
      "a/b".toList ∈ s.shared.app.resources ∧
      ¬ ∃ later s', Reached (demo plainJson acceptingBeast) {} (slashed ++ later) s' ∧
        TargetsIn (fun c => c ≠ ' ') later ∧ "a/b".toList ∉ s'.shared.app.resources := by
  have ran : ((EventMachine.run (step (demo plainJson acceptingBeast)) slashed
      (System.start {})).map (fun s =>
        (s.listener, s.shared.app.stopped, decide ("a/b".toList ∈ s.shared.app.resources)))) =
          some (.accepting true, false, true) := by decide +kernel
  obtain ⟨s, reached, seen⟩ := Option.map_eq_some_iff.mp ran
  simp only [Prod.mk.injEq, decide_eq_true_eq] at seen
  obtain ⟨listening, goesOn, held⟩ := seen
  refine ⟨s, reached, held, ?_⟩
  have checked : resourcePath.all (fun c => c != ' ') = true := rfl
  rw [name_removable_iff plainJson acceptingBeast (fun c => c ≠ ' ') (by simpa using checked)
    slashed s reached goesOn listening "a/b".toList held]
  rintro ⟨-, plain, -⟩
  exact plain (by decide)

end Restio.Guarantees.ResourceNames
