/-!
# Calendar

Civil dates and times of day, from milliseconds since the start of 1970. The years from −262143 to
262142 are within range. The parts of a time are those of UTC; those of local time are the parts of
what the clocks of a zone show then (`Zone.clock`).
-/

namespace ControlNode.Calendar

/-! ### Range -/

/-- The first millisecond within range. -/
def minMs : Int := -8334601228800000

/-- The last millisecond within range. -/
def maxMs : Int := 8210266876799999

def inRange (ms : Int) : Bool := minMs ≤ ms && ms ≤ maxMs

/-! ### Days -/

def secondOf (ms : Int) : Int := ms / 1000

def dayOf (ms : Int) : Int := ms / 86400000

def secondOfDay (ms : Int) : Int := secondOf ms % 86400

def hour (ms : Int) : Int := secondOfDay ms / 3600

def minute (ms : Int) : Int := secondOfDay ms / 60 % 60

def second (ms : Int) : Int := secondOfDay ms % 60

/-- The day of the week; Monday is zero. The first day of 1970 was a Thursday. -/
def weekday (ms : Int) : Int := (dayOf ms + 3) % 7

theorem secondOfDay_bounds (ms : Int) : 0 ≤ secondOfDay ms ∧ secondOfDay ms < 86400 := by
  unfold secondOfDay
  omega

/-! ### Dates -/

structure Date where
  year : Int
  month : Int
  day : Int
  deriving Repr, DecidableEq

/-- The date of a day. Years are counted from March, so that a leap day ends its year, in
eras of 400 years, which all have 146097 days. -/
def dateOfDay (days : Int) : Date :=
  let z := days + 719468
  let era := z / 146097
  let dayOfEra := z % 146097
  let yearOfEra :=
    (dayOfEra - dayOfEra / 1460 + dayOfEra / 36524 - dayOfEra / 146096) / 365
  let dayOfYear := dayOfEra - (365 * yearOfEra + yearOfEra / 4 - yearOfEra / 100)
  let monthFromMarch := (5 * dayOfYear + 2) / 153
  let day := dayOfYear - (153 * monthFromMarch + 2) / 5 + 1
  let month := if monthFromMarch < 10 then monthFromMarch + 3 else monthFromMarch - 9
  ⟨yearOfEra + era * 400 + (if month ≤ 2 then 1 else 0), month, day⟩

def date (ms : Int) : Date := dateOfDay (dayOf ms)

end ControlNode.Calendar

namespace ControlNode

/-! ### Zones -/

/-- A time zone: by how many seconds its clocks are ahead of UTC, before and after every change. -/
structure Zone where
  first : Int := 0
  /-- The changes in order, each at a second of UTC. -/
  changes : List (Int × Int) := []
  deriving Repr, DecidableEq

namespace Zone

def utc : Zone := {}

/-- How far the clocks are ahead at a second of UTC. -/
def offsetAt (z : Zone) (second : Int) : Int :=
  ((z.changes.filter fun c => c.1 ≤ second).getLast?.map Prod.snd).getD z.first

/-- The time that the clocks of the zone show at a time of UTC. -/
def clock (z : Zone) (ms : Int) : Int := ms + 1000 * z.offsetAt (Calendar.secondOf ms)

end Zone

end ControlNode
