import FluidAnalysis.Command.Basic
import FluidAnalysis.Command.Options

/-!
# The menu of commands

The commands by their names, with the options of each, and the reading of a whole command line.
Two commands are groups with commands of their own. The shared options may stand at every level.
-/

namespace FluidAnalysis.Command

open Files HardSphere Launch SquareWell

/-! ## Options by name -/

namespace Flag

def number (name : String) (required : Bool := false) : Flag :=
  { name := name, form := .single .number, required := required }

def numbers (name : String) : Flag :=
  { name := name, form := .list .number }

def text (name : String) (required : Bool := false) : Flag :=
  { name := name, form := .single .text, required := required }

def texts (name : String) (required : Bool := false) : Flag :=
  { name := name, form := .list .text, required := required }

def path (name : String) (required : Bool := false) : Flag :=
  { name := name, form := .single .path, required := required }

def count (name : String) (required : Bool := false) : Flag :=
  { name := name, form := .single .count, required := required }

def short (name : String) : Flag :=
  { name := name, form := .single (.bounded 0 shortBound) }

def switch (name : String) : Flag :=
  { name := name, form := .switch }

end Flag

/-! ## Shared options -/

def sharedFlags : List Flag :=
  [.path "config", .path "data-root", .path "output-root",
    { name := "verbose", letter := some 'v', form := .tally },
    { name := "quiet", letter := some 'q', form := .switch },
    { name := "help", letter := some 'h', form := .notice .help }]

/-- Only before all commands. -/
def versionFlag : Flag :=
  { name := "version", letter := some 'V', form := .notice .version }

/-- Options that exclude each other. -/
def exclusiveFlags : List (String × String) := [("quiet", "verbose")]

def Shared.ofGiven (g : Given) : Shared :=
  { settings := g.value? "config"
    dataRoot := g.value? "data-root"
    outputRoot := g.value? "output-root" }

/-! ## Commands -/

/-- A command with its options and the way to read it off them. -/
structure Entry where
  flags : List Flag
  command? : Given → Option Command

def Entry.sphere (geometry : Float → Nat → Geometry) : Entry where
  flags :=
    [.number "radius" true, { name := "ff", form := .single (.bounded 1 10), required := true }]
  command? g := return .contact (geometry (← g.number? "radius") (← g.short? "ff"))

def Entry.walls : Entry where
  flags :=
    [.path "mc" true, .path "white-bear" true, .path "white-bear-tensorial" true,
      .path "mark-two" true]
  command? g :=
    return .contact (.walls (← g.value? "mc") (← g.value? "white-bear")
      (← g.value? "white-bear-tensorial") (← g.value? "mark-two"))

def Entry.pairDistribution : Entry where
  flags := [.text "file-base", .numbers "filling-fractions", .numbers "parameters", .switch "fit"]
  command? g :=
    return .pairDistribution ((g.value? "file-base").getD "gr") (g.numbers "filling-fractions")
      (g.numbers "parameters") (g.has "fit")

/-- The options that name a square-well system and the methods that simulated it. -/
def systemFlags : List Flag :=
  [.number "ww" true, .number "ff" true,
    { name := "particles", letter := some 'N', form := .single .count, required := true },
    .texts "methods" true]

def Given.system? (g : Given) : Option System :=
  return ⟨← g.number? "ww", ← g.number? "ff", ← g.count? "particles"⟩

def Entry.energies (view : HistogramView) : Entry where
  flags := systemFlags
  command? g := return .histogram ⟨view, ← g.system?, g.values "methods"⟩

def Entry.densities : Entry where
  flags := systemFlags ++ [.short "seed"]
  command? g :=
    return .histogram ⟨.densities ((g.short? "seed").getD 0), ← g.system?, g.values "methods"⟩

def Entry.sizeScaling : Entry where
  flags :=
    [.number "ww" true, .number "ff" true,
      { name := "sizes", form := .list .count, required := true }, .texts "methods" true]
  command? g :=
    return .sizeScaling ⟨← g.number? "ww", ← g.number? "ff", g.counts "sizes", g.values "methods"⟩

def Entry.convergence : Entry where
  flags :=
    [{ name := "energy", form := .single .integer, required := true, hyphens := true },
      .path "reference" true, .text "file-base" true, .texts "methods", .count "running-mean"]
  command? g :=
    return .convergence
      { energy := ← g.integer? "energy"
        reference := ← g.value? "reference"
        fileBase := ← g.value? "file-base"
        methods := g.values "methods"
        window := g.count? "running-mean" }

def Entry.heatCapacity : Entry where
  flags :=
    [{ name := "runs", form := .list .path, required := true }, .count "atoms", .number "min-time",
      .number "save-time"]
  command? g :=
    let usual : LennardJones.HeatCapacityReport := { runs := g.values "runs" }
    some (.heatCapacity
      { usual with
        atoms := (g.count? "atoms").getD usual.atoms
        minTime := (g.number? "min-time").getD usual.minTime
        saveTime := (g.number? "save-time").getD usual.saveTime })

def Entry.thermodynamics : Entry where
  flags := systemFlags ++ [.number "min-t-threshold"]
  command? g :=
    return .thermodynamics (← g.system?) (g.values "methods")
      ((g.number? "min-t-threshold").getD Canonical.defaultThreshold)

def Entry.freeEnergy : Entry where
  flags := [.number "ww", .numbers "temperatures"]
  command? g :=
    return .freeEnergy ((g.number? "ww").getD 1.3) (g.numbers "temperatures")

def Entry.coexistence : Entry where
  flags := []
  command? _ := some .coexistence

def Entry.softSphere : Entry where
  flags :=
    [{ name := "plots", form := .list (.choice (SoftSphere.Plot.all.map SoftSphere.Plot.name)) },
      .numbers "densities", .numbers "temperatures"]
  command? g :=
    return .softSphere ((g.values "plots").filterMap SoftSphere.Plot.ofName?)
      (g.numbers "densities") (g.numbers "temperatures")

/-! ## Launches -/

def launchFlags : List Flag := [.short "srun-mem", .switch "dry-run"]

def LaunchMode.ofGiven (g : Given) : LaunchMode :=
  { scheduler :=
      match g.short? "srun-mem" with
      | some memory => .srun memory
      | none => .direct
    shown := g.has "dry-run" }

def Entry.launchLadder : Entry where
  flags :=
    [.short "recursion", .number "ww" true, .number "length" true,
      { name := "sizes", form := .list .count, required := true }, .path "program",
      { name := "overwrite", letter := some 'O', form := .switch }] ++ launchFlags
  command? g :=
    return .launchLadder
      { recursion := (g.short? "recursion").getD 0
        wellWidth := ← g.number? "ww"
        boxLength := ← g.number? "length"
        sizes := g.counts "sizes"
        program := (g.value? "program").getD "free-energy-monte-carlo"
        overwrite := g.has "overwrite" }
      (.ofGiven g)

/-- What a soft-sphere launch may simulate. -/
def launchKinds : List String := ["homogeneous", "walls", "test-particle", "fcc"]

def Given.softSphereJob? (g : Given) : Option SoftSphereJob := do
  let density ← g.number? "density"
  let temperature ← g.number? "temperature"
  let potential := (g.value? "potential").getD ""
  match (g.value? "kind").getD "homogeneous" with
  | "homogeneous" => return .homogeneous density temperature potential
  | "walls" => return .walls density temperature ((g.count? "spheres").getD 0)
  | "test-particle" =>
    return .testParticle density temperature ((g.number? "sigma").getD 1.0)
      ((g.number? "epsilon").getD 1.0) potential
  | "fcc" => return .fcc density temperature potential
  | _ => none

def Entry.launchSoftSphere : Entry where
  flags :=
    [{ name := "kind", form := .single (.choice launchKinds) }, .number "density" true,
      .number "temperature" true, .text "potential", .count "spheres", .number "sigma",
      .number "epsilon", .path "program", .path "figs-dir"] ++ launchFlags
  command? g :=
    let runner : SoftSphereRunner :=
      { program := (g.value? "program").getD "soft-monte-carlo"
        directory := (g.value? "figs-dir").getD "figs" }
    return .launchJob (runner.plan (← g.softSphereJob?)) (.ofGiven g)

def Entry.launchRadial : Entry where
  flags :=
    [.number "density" true, .number "temperature" true, .path "figs-dir", .path "log-dir"]
      ++ launchFlags
  command? g :=
    return .launchJob
      (radialJob ((g.value? "figs-dir").getD "figs") ((g.value? "log-dir").getD ".")
        (← g.number? "density") (← g.number? "temperature"))
      (.ofGiven g)

/-! ## The menu -/

/-- A name on the menu: a command, or a group of commands. -/
inductive Item where
  | entry (entry : Entry)
  | group (entries : List (String × Entry))

def contactMenu : List (String × Entry) :=
  [("inner", .sphere .innerSphere), ("outer", .sphere .outerSphere), ("walls", .walls)]

def launchMenu : List (String × Entry) :=
  [("absolute", .launchLadder), ("soft", .launchSoftSphere), ("wca", .launchRadial)]

def menu : List (String × Item) :=
  [("contact", .group contactMenu),
    ("ghs", .entry .pairDistribution),
    ("histogram", .entry (.energies .energies)),
    ("dos", .entry .densities),
    ("samples", .entry (.energies .sampleRates)),
    ("scaling", .entry .sizeScaling),
    ("compare", .entry .convergence),
    ("lj-heat-capacity", .entry .heatCapacity),
    ("thermo", .entry .thermodynamics),
    ("free-energy", .entry .freeEnergy),
    ("coexistence", .entry .coexistence),
    ("soft", .entry .softSphere),
    ("launch", .group launchMenu)]

/-- The word that asks for help, where commands have names. -/
def helpName : String := "help"

/-- Whether there is help on what the words after the help word name. -/
def hasHelp {β : Type} (items : List (String × β)) (below : β → List String → Bool) :
    List String → Bool
  | [] => true
  | name :: rest =>
    if name == helpName then rest.isEmpty
    else
      match items.lookup name with
      | some item => below item rest
      | none => false

def Entry.hasHelp (_ : Entry) (topic : List String) : Bool :=
  topic.isEmpty

def Item.hasHelp : Item → List String → Bool
  | entry e, topic => e.hasHelp topic
  | group entries, topic => Command.hasHelp entries Entry.hasHelp topic

/-! ## Reading -/

/-- Reads the options of a command. -/
def Entry.read (e : Entry) (words : List String) : Except Stop (Shared × Command) := do
  let flags := sharedFlags ++ e.flags
  let scanned ← scan flags [] [] words
  checkGiven flags exclusiveFlags scanned.given
  match e.command? scanned.given with
  | some command => return (.ofGiven scanned.given, command)
  | none => .error (.fault .noCommand)

/-- Reads the options before a command's name, and then the command. -/
def readChoice {β : Type} (flags : List Flag) (items : List (String × β))
    (below : β → List String → Bool) (next : β → List String → Except Stop (Shared × Command))
    (words : List String) : Except Stop (Shared × Command) := do
  let scanned ← scan flags (helpName :: items.map (·.1)) [] words
  match scanned.command with
  | none => .error (.fault .noCommand)
  | some (name, rest) =>
    match items.lookup name with
    | some item =>
      let (shared, command) ← next item rest
      checkGiven flags exclusiveFlags scanned.given
      return (shared.within (.ofGiven scanned.given), command)
    | none =>
      if hasHelp items below rest then .error (.notice .help)
      else .error (.fault (.unexpected name))

def Item.read : Item → List String → Except Stop (Shared × Command)
  | entry e, words => e.read words
  | group entries, words => readChoice sharedFlags entries Entry.hasHelp Entry.read words

/-- Reads a command line. -/
def read (words : List String) : Except Stop (Shared × Command) :=
  readChoice (sharedFlags ++ [versionFlag]) menu Item.hasHelp Item.read words

end FluidAnalysis.Command
