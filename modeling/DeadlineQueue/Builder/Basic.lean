import DeadlineQueue.Queue.Basic

namespace DeadlineQueue

-- One choice about the settings. A later one wins over an earlier one.
inductive Setting where
  | wait (limit : Duration)
  | processing (limit : Duration)
  | overallTimeout (timeout : Duration)
  | limits (limits : Limits)
  | settings (settings : Settings)

def Settings.choose (settings : Settings) : Setting → Settings
  | .wait limit => { settings with limits.wait := some limit }
  | .processing limit => { settings with limits.processing := some limit }
  | .overallTimeout overallTimeout => { settings with overallTimeout }
  | .limits limits => { settings with limits }
  | .settings replacement => replacement

def Settings.ofChoices (choices : List Setting) : Settings :=
  choices.foldl Settings.choose {}

-- A queue that is being put together: its settings, who processes its messages, and who listens.
structure Builder (π ν : Type) where
  settings : Settings := {}
  processor : Option π := none
  notifier : Option ν := none

inductive Choice (π ν : Type) where
  | setting (setting : Setting)
  | processor (processor : π)
  | notifier (notifier : ν)

namespace Builder

variable {π ν : Type}

def choose (builder : Builder π ν) : Choice π ν → Builder π ν
  | .setting setting => { builder with settings := builder.settings.choose setting }
  | .processor processor => { builder with processor := some processor }
  | .notifier notifier => { builder with notifier := some notifier }

def ofChoices (choices : List (Choice π ν)) : Builder π ν :=
  choices.foldl choose {}

-- The processor and an empty queue. Nobody needs to listen, but somebody has to process.
def build {μ ρ : Type} (builder : Builder π ν) : Except Fault (π × Queue μ ρ) :=
  match builder.processor with
  | none => .error (.config "Processor is required")
  | some processor => .ok (processor, Queue.make builder.settings builder.notifier.isSome)

end Builder

end DeadlineQueue
