import TypedProperties.Unit.Table

/-! The standard units. Millimetre, nanosecond, MeV and the positron charge are all 1. -/
namespace TypedProperties
namespace StandardUnits

/-! The sizes that other units are built from. -/

def millimeter : Float := 1.0
def centimeter : Float := 10.0 * millimeter
def meter : Float := 1000.0 * millimeter
def kilometer : Float := 1000.0 * meter
def nanosecond : Float := 1.0
def second : Float := 1.0e9 * nanosecond
def mev : Float := 1.0
def eplus : Float := 1.0
def chargeSI : Float := 1.602176634e-19
def radian : Float := 1.0
def degree : Float := 3.14159265358979323846264338327950288 / 180.0 * radian
def joule : Float := 1.0e-6 * mev / chargeSI
def kilogram : Float := joule * second * second / (meter * meter)
def gram : Float := 1.0e-3 * kilogram
def pascal : Float := joule / meter / (meter * meter)
def bar : Float := 1.0e5 * pascal
def volt : Float := 1.0e-6 * mev / eplus
def tesla : Float := volt * second / (meter * meter)
def gauss : Float := 1.0e-4 * tesla
def kelvin : Float := 1.0
def hertz : Float := 1.0 / second
def becquerel : Float := 1.0 / second
def curie : Float := 3.7e10 * becquerel
def coulomb : Float := eplus / chargeSI
def ampere : Float := coulomb / second
def lightSpeed : Float := 299.792458 * millimeter / nanosecond
def parsec : Float := 3.0856775807e16 * meter
def m2 : Float := meter * meter
def m3 : Float := m2 * meter
def cm3 : Float := centimeter * centimeter * centimeter
def c2 : Float := lightSpeed * lightSpeed

def entries (label : String) (rows : List (List String × Float)) : UnitTable :=
  rows.flatMap fun row =>
    row.1.map fun symbol => (Text.ofString symbol, ⟨row.2, Text.ofString label⟩)

def length : UnitTable :=
  entries "length"
    [(["angstrom"], 1.0e-10 * meter),
      (["fm", "fermi"], 1.0e-15 * meter),
      (["nm", "nanometer"], 1.0e-9 * meter),
      (["um", "micrometer"], 1.0e-6 * meter),
      (["mm", "millimeter"], millimeter),
      (["cm", "centimeter"], centimeter),
      (["m", "meter"], meter),
      (["km", "kilometer"], kilometer),
      (["pc", "parsec"], parsec),
      (["inch"], 2.54 * centimeter)]

def surface : UnitTable :=
  entries "surface"
    [(["m2"], m2),
      (["cm2"], centimeter * centimeter),
      (["mm2"], millimeter * millimeter),
      (["km2"], kilometer * kilometer)]

def volume : UnitTable :=
  entries "volume"
    [(["m3"], m3),
      (["cm3"], cm3),
      (["mm3"], millimeter * millimeter * millimeter),
      (["km3"], kilometer * kilometer * kilometer)]

def time : UnitTable :=
  entries "time"
    [(["fs", "femtosecond"], 1.0e-15 * second),
      (["ps", "picosecond"], 1.0e-12 * second),
      (["ns", "nanosecond"], nanosecond),
      (["us", "microsecond"], 1.0e-6 * second),
      (["ms", "millisecond"], 1.0e-3 * second),
      (["s", "second"], second),
      (["minute"], 60.0 * second),
      (["h", "hour"], 3600.0 * second)]

def angle : UnitTable :=
  entries "angle"
    [(["rad", "radian"], radian),
      (["mrad", "milliradian"], 1.0e-3 * radian),
      (["deg", "degree"], degree)]

def solidAngle : UnitTable :=
  entries "solid_angle"
    [(["steradian"], 1.0)]

def energy : UnitTable :=
  entries "energy"
    [(["eV", "electronvolt"], 1.0e-6 * mev),
      (["keV", "kiloelectronvolt"], 1.0e-3 * mev),
      (["MeV", "megaelectronvolt"], mev),
      (["GeV", "gigaelectronvolt"], 1.0e3 * mev),
      (["TeV", "teraelectronvolt"], 1.0e6 * mev),
      (["PeV", "petaelectronvolt"], 1.0e9 * mev),
      (["J", "joule"], joule)]

def mass : UnitTable :=
  entries "mass"
    [(["eV/c2"], 1.0e-6 * mev / c2),
      (["MeV/c2"], mev / c2),
      (["GeV/c2"], 1.0e3 * mev / c2),
      (["kg", "kilogram"], kilogram),
      (["g", "gram"], gram),
      (["mg", "milligram"], 1.0e-3 * gram),
      (["ug", "microgram"], 1.0e-6 * gram),
      (["t", "ton"], 1000.0 * kilogram)]

def pressure : UnitTable :=
  entries "pressure"
    [(["mbar", "millibar"], 1.0e-3 * bar),
      (["bar"], bar),
      (["atmosphere"], 101325.0 * pascal),
      (["Pa", "pascal"], pascal)]

def magneticField : UnitTable :=
  entries "magnetic_field"
    [(["T", "tesla"], tesla),
      (["G", "gauss"], gauss),
      (["kG", "kilogauss"], 1.0e3 * gauss)]

def electricField : UnitTable :=
  entries "electric_field"
    [(["V/cm"], volt / centimeter),
      (["V/m"], volt / meter),
      (["kV/cm"], 1.0e3 * volt / centimeter),
      (["kV/m"], 1.0e3 * volt / meter)]

def electricTension : UnitTable :=
  entries "electric_tension"
    [(["uV"], 1.0e-6 * volt),
      (["mV"], 1.0e-3 * volt),
      (["V"], volt),
      (["kV"], 1.0e3 * volt),
      (["MV"], 1.0e6 * volt)]

def temperature : UnitTable :=
  entries "temperature"
    [(["kelvin"], kelvin)]

def density : UnitTable :=
  entries "density"
    [(["mg/cm3"], 1.0e-3 * gram / cm3),
      (["g/cm3"], gram / cm3),
      (["kg/m3"], kilogram / m3)]

def activity : UnitTable :=
  entries "activity"
    [(["Bq"], becquerel),
      (["mBq"], 1.0e-3 * becquerel),
      (["uBq"], 1.0e-6 * becquerel),
      (["kBq"], 1.0e3 * becquerel),
      (["MBq"], 1.0e6 * becquerel),
      (["GBq"], 1.0e9 * becquerel),
      (["Ci"], curie),
      (["kCi"], 1.0e3 * curie),
      (["MCi"], 1.0e6 * curie),
      (["mCi"], 1.0e-3 * curie),
      (["uCi"], 1.0e-6 * curie),
      (["nCi"], 1.0e-9 * curie),
      (["pCi"], 1.0e-12 * curie),
      (["dpm"], becquerel / 60.0)]

def surfaceActivity : UnitTable :=
  entries "surface_activity"
    [(["Bq/m2"], becquerel / m2),
      (["mBq/m2"], 1.0e-3 * becquerel / m2),
      (["uBq/m2"], 1.0e-6 * becquerel / m2),
      (["kBq/m2"], 1.0e3 * becquerel / m2),
      (["MBq/m2"], 1.0e6 * becquerel / m2),
      (["GBq/m2"], 1.0e9 * becquerel / m2),
      (["dpm/m2"], becquerel / 60.0 / m2)]

def volumeActivity : UnitTable :=
  entries "volume_activity"
    [(["Bq/m3"], becquerel / m3),
      (["mBq/m3"], 1.0e-3 * becquerel / m3),
      (["uBq/m3"], 1.0e-6 * becquerel / m3),
      (["kBq/m3"], 1.0e3 * becquerel / m3),
      (["MBq/m3"], 1.0e6 * becquerel / m3),
      (["GBq/m3"], 1.0e9 * becquerel / m3),
      (["dpm/m3"], becquerel / 60.0 / m3)]

def massActivity : UnitTable :=
  entries "mass_activity"
    [(["Bq/kg"], becquerel / kilogram),
      (["mBq/kg"], 1.0e-3 * becquerel / kilogram),
      (["uBq/kg"], 1.0e-6 * becquerel / kilogram),
      (["kBq/kg"], 1.0e3 * becquerel / kilogram),
      (["MBq/kg"], 1.0e6 * becquerel / kilogram),
      (["GBq/kg"], 1.0e9 * becquerel / kilogram),
      (["dpm/kg"], becquerel / 60.0 / kilogram)]

def frequency : UnitTable :=
  entries "frequency"
    [(["Hz"], hertz),
      (["mHz"], 1.0e-3 * hertz),
      (["kHz"], 1.0e3 * hertz),
      (["MHz"], 1.0e6 * hertz),
      (["GHz"], 1.0e9 * hertz)]

def electricCharge : UnitTable :=
  entries "electric_charge"
    [(["C"], coulomb),
      (["nC"], 1.0e-9 * coulomb),
      (["pC"], 1.0e-12 * coulomb)]

def electricCurrent : UnitTable :=
  entries "electric_current"
    [(["A"], ampere),
      (["mA"], 1.0e-3 * ampere),
      (["uA"], 1.0e-6 * ampere),
      (["nA"], 1.0e-9 * ampere)]

def speed : UnitTable :=
  entries "speed"
    [(["km/s"], kilometer / second),
      (["km/h"], kilometer / (3600.0 * second)),
      (["m/s"], meter / second),
      (["mm/s"], millimeter / second),
      (["cm/s"], centimeter / second),
      (["m/ms"], meter / (1.0e-3 * second)),
      (["mm/ms"], millimeter / (1.0e-3 * second)),
      (["cm/ms"], centimeter / (1.0e-3 * second)),
      (["m/us"], meter / (1.0e-6 * second)),
      (["mm/us"], millimeter / (1.0e-6 * second)),
      (["cm/us"], centimeter / (1.0e-6 * second)),
      (["m/ns"], meter / nanosecond),
      (["mm/ns"], millimeter / nanosecond),
      (["cm/ns"], centimeter / nanosecond)]

def table : UnitTable :=
  List.flatten
    [length, surface, volume, time, angle, solidAngle, energy, mass, pressure, magneticField,
      electricField, electricTension, temperature, density, activity, surfaceActivity,
      volumeActivity, massActivity, frequency, electricCharge, electricCurrent, speed]

def system : UnitSystem := table.system

end StandardUnits
end TypedProperties
