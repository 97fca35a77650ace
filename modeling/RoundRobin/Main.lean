import RoundRobin.Linking

/-! The program for the development machine. -/

def main : IO Unit := IO.println RoundRobin.Linking.notice
