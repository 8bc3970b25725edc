import Mathlib.Data.List.DropRight
import Sbarbase.Gateway.Concurrency
/-!
# Pressure samples

`pressure` of `ConcurrencyGate` and `PressureMonitor` of
`src/gateway/pressure.ts`. The monitor is a machine whose events are the samples
it reads, and `watched` joins it to the gate: its sample is the event `pressure`
of the gate, which runs between any two others.
-/

namespace Sbarbase.Gateway.Pressure

open Lib Gateway.Concurrency

/-! ## What the gate tells -/

/-- What one environment did since the last sample. -/
structure EnvironmentPressure where
  refused : ℤ
  squeezed : ℤ
  peak : ℤ
  active : ℤ
  guarantee : ℤ
  deriving DecidableEq

/-- The result of `pressure`. -/
abbrev Sample := Dict String EnvironmentPressure

/-- The entry of one environment. -/
def pressureOf (c : Settings) (g : Gate) (environment : String) : EnvironmentPressure where
  refused := (g.refused.get environment).getD 0
  squeezed := (g.squeezed.get environment).getD 0
  peak := max ((g.peaks.get environment).getD 0) (g.activeOf environment)
  active := g.activeOf environment
  guarantee := guarantee c g.shareOf environment

/-- The environments `pressure` speaks of. -/
def pressed (g : Gate) : List String :=
  (g.refused.keys ++ g.squeezed.keys ++ g.peaks.keys ++ g.active.keys).dedup

/-- What `pressure` returns. The gate it leaves is `Concurrency.pressure`. -/
def sampleOf (c : Settings) (g : Gate) : Sample :=
  (pressed g).foldl (fun out environment => out.set environment (pressureOf c g environment)) ∅

/-! ## The monitor -/

/-- The minutes an environment has been saturated in a row, and what they add up to. -/
structure Saturation where
  minutes : ℤ
  refused : ℤ
  peak : ℤ
  guarantee : ℤ
  deriving DecidableEq

/-- The check of the constructor, with the text it throws. -/
def checkWindow (minutes : ℤ) : Except String Unit :=
  if !isSafeInteger minutes || minutes < 1 then .error "Invalid saturation window" else .ok ()

/-- The number of minutes after which a monitor reports. -/
structure Window where
  minutes : ℤ
  checked : checkWindow minutes = .ok ()

/-- The constructor without the argument. -/
def Window.defaults : Window where
  minutes := 15
  checked := by decide

/-- An environment was refused, or a neighbour was turned away while it borrowed. -/
def saturated (pressure : EnvironmentPressure) : Bool :=
  0 < pressure.refused || 0 < pressure.squeezed

/-- The run before its first minute. -/
def Saturation.start (pressure : EnvironmentPressure) : Saturation where
  minutes := 0
  refused := 0
  peak := 0
  guarantee := pressure.guarantee

/-- One more minute. -/
def Saturation.add (run : Saturation) (pressure : EnvironmentPressure) : Saturation :=
  { run with
    minutes := run.minutes + 1
    refused := run.refused + (pressure.refused + pressure.squeezed)
    peak := max run.peak pressure.peak }

/-- The variables of `sample`: the map of runs, the set `seen`, and the calls of
`report`. What a report throws is dropped. -/
structure Pass where
  runs : Dict String Saturation
  seen : List String
  reported : List (String × Saturation)

/-- The body of the loop over the sample. -/
def samplePass (w : Window) (pass : Pass) (runtime : String) (pressure : EnvironmentPressure) :
    Pass :=
  if !saturated pressure then pass
  else
    let run := ((pass.runs.get runtime).getD (.start pressure)).add pressure
    let seen := runtime :: pass.seen
    if run.minutes ≥ w.minutes then
      { runs := pass.runs.delete runtime
        seen := seen
        reported := pass.reported ++ [(runtime, run)] }
    else { pass with runs := pass.runs.set runtime run, seen := seen }

/-- The field of the class, and what each sample reported. -/
structure Monitor where
  runs : Dict String Saturation
  reports : List (List (String × Saturation))

/-- `sample`. The runs of runtimes that were not seen end. -/
def sample (w : Window) (m : Monitor) (pressures : Sample) : Monitor :=
  let pass := pressures.entries.foldl
    (fun pass entry => samplePass w pass entry.1 entry.2) ⟨m.runs, [], []⟩
  { runs := pass.runs.filter fun runtime _ => pass.seen.contains runtime
    reports := m.reports ++ [pass.reported] }

/-- A monitor and the samples it reads. -/
def monitor (w : Window) : Machine Monitor Sample where
  initial := ⟨∅, []⟩
  step := sample w

/-! ## The gate under watch -/

/-- A gate, its monitor, and the samples that were read. -/
structure Watched where
  gate : Gate
  monitor : Monitor
  samples : List Sample

/-- A gate watched by a monitor, the only caller of `pressure`. -/
def watched (c : Config) (w : Window) : Machine Watched Event where
  initial := ⟨Gate.empty, (monitor w).initial, []⟩
  step s e :=
    match e with
    | .pressure =>
      let pressures := sampleOf c.toSettings s.gate
      { gate := pressure s.gate
        monitor := sample w s.monitor pressures
        samples := s.samples ++ [pressures] }
    | e => { s with gate := step c.toSettings s.gate e }

/-! ## What the samples say -/

/-- The environment is saturated in the sample. -/
def saturatedIn (runtime : String) (pressures : Sample) : Bool :=
  (pressures.get runtime).any saturated

/-- The number of saturated samples in a row at the end of a list of samples. -/
def streak (runtime : String) (samples : List Sample) : ℕ :=
  (samples.rtakeWhile (saturatedIn runtime)).length

/-- The refusals of an environment in a sample. -/
def refusedIn (environment : String) (pressures : Sample) : ℤ :=
  ((pressures.get environment).map (·.refused)).getD 0

/-- The squeezed neighbours of an environment in a sample. -/
def squeezedIn (environment : String) (pressures : Sample) : ℤ :=
  ((pressures.get environment).map (·.squeezed)).getD 0

/-- The refusals and squeezes of the environment in a sample. -/
def chargesIn (runtime : String) (pressures : Sample) : ℤ :=
  ((pressures.get runtime).map fun p => p.refused + p.squeezed).getD 0

/-- What a list of samples adds up to for an environment. The guarantee is that
of the first of them. -/
def addUp (runtime : String) (samples : List Sample) : Saturation where
  minutes := samples.length
  refused := (samples.map (chargesIn runtime)).sum
  peak := (samples.map fun pressures => ((pressures.get runtime).map (·.peak)).getD 0).foldl max 0
  guarantee := ((samples.head?.bind (·.get runtime)).map (·.guarantee)).getD 0

/-- What the last of the reports say about an environment. -/
def reportsOn (runtime : String) (reports : List (List (String × Saturation))) : List Saturation :=
  (reports.getLastD []).filterMap fun report => if report.1 = runtime then some report.2 else none

/-- What the gate answers to an arriving request without forwarding it. -/
def answer (c : Settings) (g : Gate) : Event → Option (String × Refusal)
  | .arrive environment aborted budget now =>
    match (run c g environment aborted budget now).history.head? with
    | some (.refused environment refusal) => some (environment, refusal)
    | _ => none
  | _ => none

/-- The event is a 429 at the share or ceiling of the environment. -/
def RefusedAtShare (c : Settings) (g : Gate) (environment : String) (e : Event) : Prop :=
  answer c g e = some (environment, .atShare)

/-- The event is a 503 for a neighbour while the environment has more than its share. -/
def SqueezesNeighbour (c : Settings) (g : Gate) (environment : String) (e : Event) : Prop :=
  g.activeOf environment > guarantee c g.shareOf environment ∧
    (answer c g e).map Prod.snd = some .full

instance (c : Settings) (g : Gate) (environment : String) (e : Event) :
    Decidable (RefusedAtShare c g environment e) :=
  inferInstanceAs (Decidable (_ = _))

instance (c : Settings) (g : Gate) (environment : String) (e : Event) :
    Decidable (SqueezesNeighbour c g environment e) :=
  inferInstanceAs (Decidable (_ ∧ _))

/-- The event is counted, and the next sample is the one numbered `k`. -/
def countedIn (counts : Gate → Event → Prop) [∀ g e, Decidable (counts g e)] (k : ℕ) (s : Watched)
    (e : Event) : ℕ :=
  if counts s.gate e ∧ s.samples.length = k then 1 else 0

end Sbarbase.Gateway.Pressure
