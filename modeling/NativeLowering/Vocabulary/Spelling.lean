/-!
# Fixed spellings of the written source

Every word the library writes that does not come from the program being lowered.
-/

set_option autoImplicit false

namespace NativeLowering.Spelling

/-- What mangled function and class names start with, unless the options say otherwise. -/
def mangling : String := "tscc_"

/-- What the names of materialized temporaries start with. -/
def temporaryStem : String := "_tscc_temp_"

/-- A method of this name is the destructor of its class. -/
def destructor : String := "destructor"

/-- The first parameter of a receiver function. -/
def receiver : String := "self"

/-- The smart pointer that holds a shared object. -/
def sharedPointer : String := "std::shared_ptr"

/-- The function that constructs a shared object. -/
def makeShared : String := "std::make_shared"

/-- Spaces per level of indentation, unless the options say otherwise. -/
def indentWidth : Nat := 4

/-- The version the command line reports. -/
def version : String := "0.1.0-alpha.1"

/-- The name of the `n`-th temporary of a body. -/
def temporary (n : Nat) : String := temporaryStem ++ n.repr

end NativeLowering.Spelling
