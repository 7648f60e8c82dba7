/-
What reports say about the tool itself.
-/
namespace CallLint.Tool

def name : String := "callmatch"

def version : String := "0.1.0"

def informationUri : String := "https://github.com/zen-systems/callmatch"

end CallLint.Tool
