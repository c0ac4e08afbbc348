import DwarfLines.Command.Ending
import DwarfLines.Log.Filter
import DwarfLines.Object.Elf

/-!
# The whole program

The program takes ELF files for object files, and its filters are lists of rules.
-/

namespace DwarfLines

def Image.load (path : String) (contents : Except StorageError (List UInt8)) : Action Image :=
  Image.loadWith ElfFile.reader path contents

def Command.run (contents : Except StorageError (List UInt8)) (command : Command) : Action Unit :=
  command.runWith ElfFile.reader contents

/-- Runs what the arguments say, and gives the storage as it is left. -/
def Invocation.run (invocation : Invocation) (environment : LogEnvironment) (storage : Storage) :
    Ending × Storage :=
  invocation.runWith ElfFile.reader LogFilter.language environment storage

end DwarfLines
