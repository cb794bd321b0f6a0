import IgnoreRules.Text.Basic

/-! # Version -/

namespace IgnoreRules

def version : String := "0.4.0"

end IgnoreRules
