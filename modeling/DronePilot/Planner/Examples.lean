/-!
# Examples for the language model

Every prompt for a plan contains examples: what is in sight, the task, the reasons, and the plan to
answer with.
-/

namespace DronePilot.Planner

/-- An example of a plan. -/
structure Example where
  /-- What is in sight. -/
  scene : String
  /-- What is asked for, as a text of the user. -/
  task : String
  reason : String
  /-- The plan. -/
  response : String
deriving Repr

/-- The examples. -/
def examples : List Example :=
  [ { scene := "[]"
      task := "[A] Find a bottle, tell me it's height and take a picture of it."
      reason :=
        "no bottle instance in the scene, so we use scan to find bottle, then go and use " ++
        "object_height to get the height and log to output the height, finally use picture " ++
        "to take a picture of the bottle"
      response := "?s('bottle')==True\x7bg('bottle');_2=oh('bottle');l(_2);tp\x7d;" },
    { scene := "[apple x:0.28 y:0.52 width:0.13 height:0.2]"
      task := "[A] Find an apple."
      reason := "there is an apple instance in the scene, we just go to it"
      response := "g('apple');" },
    { scene := "[apple x:0.28 y:0.15 width:0.2 height:0.19]"
      task := "[Q] Is there an apple and an orange on your left?"
      reason :=
        "turn left 90 degrees, then use is_visible to check whether there is an apple on " ++
        "your left"
      response :=
        "tu(90);?iv('apple')==True&iv('orange')\x7bl('Yes');->True\x7dl('No');->False;" },
    { scene :=
        "[chair x:0.58 y:0.5 width:0.43 height:0.7,laptop x:0.58 y:0.5 width:0.43 " ++
        "height:0.7]"
      task := "[A] Turn around and go to the chair behind you."
      reason :=
        "the chair is not the target because we want the one behind you. So we turn 180 " ++
        "degrees then go to the general object chair, since chair is a large object, we " ++
        "use 80cm as the distance."
      response := "tc(180);g('chair');" },
    { scene := "[chair x:0.32 y:0.35 width:0.56 height:0.4]"
      task := "[A] Find and go any edible object."
      reason :=
        "edible object is abstract and there is no edible object in the scene, so we use " ++
        "scan_abstract to find the edible object"
      response := "_1=sa('Any edible target here?');?_1!=False\x7bg(_1)\x7d;" },
    { scene :=
        "[chair x:0.28 y:0.12 width:0.43 height:0.67,laptop x:0.78 y:0.45 width:0.23 " ++
        "height:0.25]"
      task := "[A] Turn with 30 degrees step until you can see some animal."
      reason := "we use loop and probe to find animal"
      response :=
        "12\x7b_1=p('Any animal target " ++
        "here?');?_1!=False\x7bl(_1);->True\x7dtc(30)\x7d->False;" },
    { scene :=
        "[chair x:0.28 y:0.12 width:0.43 height:0.67,laptop x:0.28 y:0.12 width:0.43 " ++
        "height:0.67]"
      task := "[A] If you can see a chair, go find a person, else go find an orange."
      reason :=
        "From the scene, we can see a chair, so we use scan to find a person. Since person " ++
        "is a large object, we use 60cm as the distance"
      response := "?s('person')==True\x7bg('person');->True\x7d->False;" },
    { scene :=
        "[chair x:0.48 y:0.22 width:0.23 height:0.17,chair x:0.18 y:0.12 width:0.33 " ++
        "height:0.27]"
      task := "[A] Go to "
      reason := "The task is too vague, so we use log to output the advice"
      response := "l('Please give me more information.');" },
    { scene :=
        "[chair x:0.18 y:0.5 width:0.43 height:0.7, chair x:0.6 y:0.3 width:0.08 " ++
        "height:0.09, book x:0.62 y:0.26 width:0.23 height:0.17]"
      task := "[A] Go to the chair with book on it."
      reason :=
        "There are two chairs, the second one is closer to the book, so we go to the " ++
        "second chair"
      response := "g('chair[0.6]');" },
    { scene :=
        "[apple x:0.74 y:0.3 width:0.09 height:0.1, apple x:0.3 y:0.5 width:0.15 " ++
        "height:0.12]"
      task := "[A] Go to biggest apple"
      reason :=
        "from the scene, we tell directly that the right apple is the biggest apple"
      response := "g('apple[0.3]');" },
    { scene := "[apple x:0.74 y:0.3 width:0.09 height:0.1]"
      task := "[A] Find a chair with a laptop on it."
      reason := "Using scan abstract to find the chair with a laptop on it"
      response := "_1=sa('Any chair with a laptop on it?');?_1!=False\x7bg(_1)\x7d;" },
    { scene := "[sports ball x:0.74 y:0.3 width:0.09 height:0.1]"
      task := "[A] Follow the ball for 17s."
      reason :=
        "There is a ball in the scene, so we try to align with it and follow it for 17s"
      response :=
        "_1=ow('sports ball');500\x7b?time()>17\x7b->True\x7d_2=ox('sports " ++
        "ball');?_2>0.55\x7btc(15)\x7d?_2<0.45\x7btu(15)\x7d_3=ow('sports " ++
        "ball');?_3>_1*1.2\x7bmb(40)\x7d?_3<_1*0.8\x7bmf(40)\x7dd(0.25)\x7d" },
    { scene :=
        "[chair x:0.18 y:0.5 width:0.43 height:0.7, chair x:0.6 y:0.3 width:0.08 " ++
        "height:0.09, book x:0.62 y:0.26 width:0.23 height:0.17]"
      task := "[Q] Which chair is closer to the book?"
      reason := "The second chair (on the right) is closer to the book"
      response := "l('the right chair');" },
    { scene := "[]"
      task := "[A] Move in a 'V' shape."
      reason :=
        "Go forward, then turn 135 degrees to the left, finally go forward again."
      response := "mf(100);tu(135);mf(100);" }]

/-- An example with its number, counted from one. -/
def Example.display (e : Example) (number : Nat) : String :=
  "Example " ++ toString number ++ ":\nScene: " ++ e.scene ++ "\nTask: " ++ e.task ++ "\nReason: " ++
    e.reason ++ "\nResponse: " ++ e.response

/-- The examples as they stand in a prompt, with blank lines between them. -/
def examplesText : String :=
  "\n\n".intercalate (examples.mapIdx fun i e => e.display (i + 1))

end DronePilot.Planner
