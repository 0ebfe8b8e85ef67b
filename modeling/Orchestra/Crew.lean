import Orchestra.Program

/-!
# Workers

A module starts its steady work as workers of its ensemble's crew.

* `Kit.startWorker` — starts a worker named after the module and a label;
* `Crew.dissolve` — closes the crew, waits for its workers, and names those that outlast the
  grace period.
-/

namespace Orchestra

variable {A : Application}

/-- The name of a worker: its module's name and a label. -/
def Kit.workerName (c : Kit) (label : String) : String :=
  c.name ++ "/" ++ label

/-- Starts a worker of the module's crew. -/
def Kit.startWorker (c : Kit) (label : String) (job : A.Job) :
    Program A Unit := do
  let name := c.workerName label
  .ask (.record ⟨.debug, Origin.workers, "worker spawned", [.shown "worker" name]⟩)
  .ask (.hire c.crew name job)

/-- Waits for a crew's workers; answers the names of those that did not end in time. -/
def Crew.dissolve (crew : CrewId) (grace : Duration) : Program A (List String) := do
  if ← .ask (.awaitCrew crew grace) then return []
  let stuck ← .ask (.crewNames crew)
  .ask (.record ⟨.warn, Origin.workers, "workers still running after grace period",
    [.shown "grace" grace.text, .shown "stuck" (Text.quotedList stuck)]⟩)
  return stuck

end Orchestra
