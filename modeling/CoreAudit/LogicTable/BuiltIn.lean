import CoreAudit.LogicTable.Basic

/-!
# The built-in policy table

Two provers re-check every logic; a third re-checks the quantifier-free ones that it supports.
`builtIn` is `LogicPolicyTable.default`: the table that is used where no other is given.
-/

namespace CoreAudit.LogicTable

/-- The validators of every logic. -/
def pair : List String := ["cvc5", "z3"]

/-- The validators of the quantifier-free logics that all three support. -/
def triple : List String := ["cvc5", "mathsat", "z3"]

/-- The rows of the built-in table. -/
def builtInRows : List (String × List String) :=
  [("ABV", pair), ("ABVFP", pair), ("ABVFPLRA", pair), ("ALIA", pair), ("ANIA", pair),
   ("AUFBV", pair), ("AUFBVDTLIA", pair), ("AUFDTLIA", pair), ("AUFDTLIRA", pair),
   ("AUFLIA", pair), ("AUFLIRA", pair), ("AUFNIA", pair), ("AUFNIRA", pair), ("BV", pair),
   ("BVFP", pair), ("BVFPLRA", pair), ("FP", pair), ("FPLRA", pair), ("LIA", pair),
   ("LRA", pair), ("NIA", pair), ("NRA", pair), ("QF_ABV", triple), ("QF_ABVFP", triple),
   ("QF_ABVFPLRA", triple), ("QF_ALIA", triple), ("QF_ANIA", pair), ("QF_AUFBV", triple),
   ("QF_AUFLIA", triple), ("QF_AUFNIA", pair), ("QF_AX", triple), ("QF_BV", triple),
   ("QF_BVFP", triple), ("QF_BVFPLRA", triple), ("QF_DT", pair), ("QF_FP", triple),
   ("QF_FPLRA", triple), ("QF_IDL", triple), ("QF_LIA", triple), ("QF_LIRA", triple),
   ("QF_LRA", triple), ("QF_NIA", triple), ("QF_NIRA", pair), ("QF_NRA", triple),
   ("QF_RDL", triple), ("QF_S", pair), ("QF_SLIA", pair), ("QF_SNIA", pair), ("QF_UF", triple),
   ("QF_UFBV", triple), ("QF_UFDT", pair), ("QF_UFDTLIA", pair), ("QF_UFFP", triple),
   ("QF_UFIDL", triple), ("QF_UFLIA", triple), ("QF_UFLRA", triple), ("QF_UFNIA", pair),
   ("QF_UFNRA", pair), ("UF", pair), ("UFBV", pair), ("UFDT", pair), ("UFDTLIA", pair),
   ("UFDTLIRA", pair), ("UFDTNIA", pair), ("UFDTNIRA", pair), ("UFFPDTNIRA", pair),
   ("UFIDL", pair), ("UFLIA", pair), ("UFLRA", pair), ("UFNIA", pair), ("UFNIRA", pair)]

/-- The table that is used where no other is given. -/
def builtIn : LogicTable :=
  ⟨builtInRows.map fun r => (Letters.ofText r.1.toList, r.2.map String.toList)⟩

end CoreAudit.LogicTable
