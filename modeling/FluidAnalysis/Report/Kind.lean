/-!
# Kinds of analysis
-/

namespace FluidAnalysis.Report

/-- What a request asks for. -/
inductive Kind where
  | contact
  | pairDistribution
  | energyHistogram
  | densityOfStates
  | sampleRate
  | sizeScaling
  | convergence
  | heatCapacity
  | thermodynamics
  | freeEnergy
  | coexistence
  | softSphere
deriving Repr, DecidableEq

namespace Kind

def all : List Kind :=
  [.contact, .pairDistribution, .energyHistogram, .densityOfStates, .sampleRate, .sizeScaling,
    .convergence, .heatCapacity, .thermodynamics, .freeEnergy, .coexistence, .softSphere]

/-- The name of a kind in messages. -/
def tag : Kind → String
  | .contact => "CONTACT"
  | .pairDistribution => "GHS"
  | .energyHistogram => "HISTOGRAM"
  | .densityOfStates => "DOS"
  | .sampleRate => "SAMPLES"
  | .sizeScaling => "SCALING"
  | .convergence => "COMPARISON"
  | .heatCapacity => "HEAT_CAPACITY"
  | .thermodynamics => "THERMO"
  | .freeEnergy => "FREE_ENERGY"
  | .coexistence => "COEXISTENCE"
  | .softSphere => "SOFT"

/-- The kind with a given name. -/
def ofTag? (tag : String) : Option Kind :=
  all.find? fun kind => kind.tag == tag

end Kind

end FluidAnalysis.Report
