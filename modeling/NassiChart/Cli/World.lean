import NassiChart.Cli.Run

/-!
# A run in memory

A `World` is a store of files with a standard input and a standard output. It is a host for the
converter, so a run is a function from worlds to worlds.
-/

namespace NassiChart.Cli

open NassiChart.Files

structure World where
  store : Store
  input : List UInt8
  output : String

namespace World

/-- Do something to the files that can fail without effect. -/
def attempt (action : Store → Except IoFailure Store) : StateM World (Except IoFailure Unit) :=
  fun world =>
    match action world.store with
    | .ok store => (.ok (), { world with store })
    | .error cause => (.error cause, world)

/-- A world is a host: what a run does to it is a change of state. -/
instance : Host (StateM World) where
  hasPath path := fun world => (world.store.hasPath path, world)
  read path := fun world => (world.store.read path, world)
  write path text := attempt fun store => store.write path text
  makeDirectories path := fun world =>
    let (result, store) := world.store.makeDirectories path
    (result, { world with store })
  input := fun world => (decode world.input, world)
  print text := fun world => (.ok (), { world with output := world.output ++ text })

end World

def runIn (world : World) (surroundings : Surroundings) (arguments : Arguments) :
    List Failure × World :=
  (run surroundings arguments : StateM World (List Failure)) world

end NassiChart.Cli
