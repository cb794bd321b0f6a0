import IgnoreRules.Options

/-! # Configurations

A configuration has a value for every setting but the path style, which the system supplies if it is
not set. Overrides have values for some settings only and are laid over a configuration.
-/

namespace IgnoreRules

structure Config where
  ignoreCase : Bool := true
  allowRelativePaths : Bool := false
  pathStyle : Option PathStyle := none
  deriving DecidableEq

structure Overrides where
  ignoreCase : Option Bool := none
  allowRelativePaths : Option Bool := none
  pathStyle : Option PathStyle := none
  deriving DecidableEq

namespace Overrides

def isEmpty (overrides : Overrides) : Bool := overrides = {}

end Overrides

namespace Config

def override (config : Config) (overrides : Overrides) : Config where
  ignoreCase := overrides.ignoreCase.getD config.ignoreCase
  allowRelativePaths := overrides.allowRelativePaths.getD config.allowRelativePaths
  pathStyle := overrides.pathStyle.or config.pathStyle

def options (config : Config) : Options where
  ignoreCase := config.ignoreCase
  allowRelativePaths := config.allowRelativePaths
  pathStyle := config.pathStyle.getD .native

end Config

end IgnoreRules
