import UnitCalc.Catalogue.Database

/-!
# The built-in database

The units that are known when no database is named: the base units, their common multiples, and
units of length, mass, volume, force, pressure, energy, power, electricity and light.
-/

namespace UnitCalc

namespace Catalogue

/-- The rows of the built-in database. -/
def builtinRows : List String :=
  ["Name,Symbol,Alternate Symbol,s,m,kg,mol,C,K,cd,COEFF",
   "second,s,sec,1,,,,,,,1",
   "metre,m,,,1,,,,,,1",
   "kilogram,kg,,,,1,,,,,1",
   "mole,mol,,,,,1,,,,1",
   "coulomb,C,,,,,,1,,,1",
   "kelvin,K,,,,,,,1,,1",
   "candela,cd,,,,,,,,1,1",
   "millisecond,ms,,1,,,,,,,0.001",
   "microsecond,µs,us,1,,,,,,,1e-6",
   "nanosecond,ns,,1,,,,,,,1e-9",
   "minute,min,,1,,,,,,,60",
   "hour,h,hr,1,,,,,,,3600",
   "day,d,day,1,,,,,,,86400",
   "year,yr,a,1,,,,,,,31557600",
   "kilometre,km,,,1,,,,,,1000",
   "centimetre,cm,,,1,,,,,,0.01",
   "millimetre,mm,,,1,,,,,,0.001",
   "micrometre,µm,um,,1,,,,,,1e-6",
   "nanometre,nm,,,1,,,,,,1e-9",
   "angstrom,angstrom,,,1,,,,,,1e-10",
   "inch,in,,,1,,,,,,0.0254",
   "foot,ft,,,1,,,,,,0.3048",
   "yard,yd,,,1,,,,,,0.9144",
   "mile,mi,,,1,,,,,,1609.344",
   "nautical mile,nmi,,,1,,,,,,1852",
   "astronomical unit,au,AU,,1,,,,,,149597870700",
   "light year,ly,,,1,,,,,,9460730472580800",
   "gram,g,,,,1,,,,,0.001",
   "milligram,mg,,,,1,,,,,1e-6",
   "microgram,µg,ug,,,1,,,,,1e-9",
   "tonne,t,,,,1,,,,,1000",
   "pound,lb,lbs,,,1,,,,,0.45359237",
   "ounce,oz,,,,1,,,,,0.028349523125",
   "millimole,mmol,,,,,1,,,,0.001",
   "litre,L,l,,3,,,,,,0.001",
   "millilitre,mL,ml,,3,,,,,,1e-6",
   "hectare,ha,,,2,,,,,,10000",
   "hertz,Hz,,-1,,,,,,,1",
   "kilohertz,kHz,,-1,,,,,,,1000",
   "megahertz,MHz,,-1,,,,,,,1e6",
   "newton,N,,-2,1,1,,,,,1",
   "kilonewton,kN,,-2,1,1,,,,,1000",
   "pound-force,lbf,,-2,1,1,,,,,4.4482216152605",
   "pascal,Pa,,-2,-1,1,,,,,1",
   "kilopascal,kPa,,-2,-1,1,,,,,1000",
   "bar,bar,,-2,-1,1,,,,,100000",
   "atmosphere,atm,,-2,-1,1,,,,,101325",
   "joule,J,,-2,2,1,,,,,1",
   "kilojoule,kJ,,-2,2,1,,,,,1000",
   "calorie,cal,,-2,2,1,,,,,4.184",
   "kilocalorie,kcal,Cal,-2,2,1,,,,,4184",
   "electronvolt,eV,,-2,2,1,,,,,1.602176634e-19",
   "watt hour,Wh,,-2,2,1,,,,,3600",
   "kilowatt hour,kWh,,-2,2,1,,,,,3600000",
   "watt,W,,-3,2,1,,,,,1",
   "kilowatt,kW,,-3,2,1,,,,,1000",
   "horsepower,hp,,-3,2,1,,,,,745.69987158227022",
   "ampere,A,amp,-1,,,,1,,,1",
   "milliampere,mA,,-1,,,,1,,,0.001",
   "ampere hour,Ah,,,,,,1,,,3600",
   "volt,V,,-2,2,1,,-1,,,1",
   "millivolt,mV,,-2,2,1,,-1,,,0.001",
   "kilovolt,kV,,-2,2,1,,-1,,,1000",
   "ohm,Ω,Ohm,-1,2,1,,-2,,,1",
   "kiloohm,kΩ,kOhm,-1,2,1,,-2,,,1000",
   "siemens,S,,1,-2,-1,,2,,,1",
   "farad,F,,2,-2,-1,,2,,,1",
   "microfarad,µF,uF,2,-2,-1,,2,,,1e-6",
   "henry,H,,,2,1,,-2,,,1",
   "tesla,T,,-1,,1,,-1,,,1",
   "weber,Wb,,-1,2,1,,-1,,,1",
   "degree Celsius,°C,degC,,,,,,1,,1",
   "degree Fahrenheit,°F,degF,,,,,,1,,0.5555555555555556",
   "lumen,lm,,,,,,,,1,1",
   "lux,lx,,,-2,,,,,1,1"]

/-- The built-in database as a text. -/
def builtinText : String := String.join (builtinRows.map (· ++ "\n"))

/-- The built-in catalogue. -/
def builtin : Except DatabaseError Catalogue := ofText builtinText

end Catalogue

end UnitCalc
